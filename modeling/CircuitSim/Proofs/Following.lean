import CircuitSim.Proofs.Expansion
import Mathlib.Logic.Relation

/-! Each step of a walk through a design goes along a net of the circuit, and keeps the width of the signal. -/
namespace CircuitSim

def Pin.at (path : List String) : Pin → List String × String
  | ⟨none, port⟩ => (path, port)
  | ⟨some owner, port⟩ => (path ++ [owner], port)

inductive Circuit.Joined (circuit : Circuit) (root : Nat) : List String × String → List String × String → Prop
  | net {path : List String} {id : Nat} {net : Net} {pin : Pin} (within : circuit.Within root path id)
      (mem : net ∈ (circuit.definition id).nets) (sink : pin ∈ net.sinks) :
      Joined circuit root (net.source.at path) (pin.at path)

namespace Design

def slot? (design : Design) : Slot → Option ((List String × String) × Nat)
  | .input place k =>
    (design.interfaceAt place).inputs[k]?.map fun port => ((design.path place, port.name), port.width)
  | .output place k =>
    (design.interfaceAt place).outputs[k]?.map fun port => ((design.path place, port.name), port.width)

def origin? (design : Design) : Origin → Option ((List String × String) × Nat)
  | .input k => design.interface.inputs[k]?.map fun port => (([], port.name), port.width)
  | .primitive place =>
    match design.item? place with
    | some (.primitive _ primitive) => some ((design.path place, primitive.output.1), primitive.width)
    | _ => none

def driver? (design : Design) : Driver Slot → Option ((List String × String) × Nat)
  | .undriven => none
  | .origin origin => design.origin? origin
  | .alias slot => design.slot? slot

def sinkSlot (place : Place) : Terminal → Slot
  | .port k => .output place k
  | .pin i k => .input (i :: place) k

section Slots

variable {design : Design} {place : Place} {wires : List Wire} {body : Hierarchy}

theorem inputSlot {k : Nat} {port : Port} (here : (design.interfaceAt place).inputs[k]? = some port) :
    design.slot? (.input place k) = some ((design.path place, port.name), port.width) := by
  rw [slot?, here, Option.map_some]

theorem outputSlot {k : Nat} {port : Port} (here : (design.interfaceAt place).outputs[k]? = some port) :
    design.slot? (.output place k) = some ((design.path place, port.name), port.width) := by
  rw [slot?, here, Option.map_some]

theorem sinkSlotAt (found : design.scope? place = some (wires, body)) (terminal : Terminal) :
    design.slot? (sinkSlot place terminal) =
      (Hierarchy.sinkPin? (design.interfaceAt place) body.interfaces terminal).map
        fun (pin, width) => (pin.at (design.path place), width) := by
  cases terminal with
  | port k =>
    simp only [sinkSlot, slot?, Hierarchy.sinkPin?, Option.map_map]
    rfl
  | pin i k =>
    simp only [sinkSlot, slot?, Hierarchy.sinkPin?, Hierarchy.interfacesAt]
    have same := design.entryIn (i := i) found
    cases here : body.get? i with
    | none =>
      rw [here] at same
      have none : design.interfaceAt (i :: place) = default := by rw [interfaceAt, same]; rfl
      rw [none]
      rfl
    | some entry =>
      rw [here] at same
      rw [interfaceIn same, pathIn same]
      simp only [Option.map_some, Option.bind_some, Option.map_map]
      rfl

def sourceDriver (place : Place) (body : Hierarchy) : Terminal → Driver Slot
  | .port k => .alias (.input place k)
  | .pin i k =>
    match body.get? i with
    | some (.primitive ..) => .origin (.primitive (i :: place))
    | some (.scope ..) => .alias (.output (i :: place) k)
    | none => .undriven

theorem sourceDriverAt (found : design.scope? place = some (wires, body)) {terminal : Terminal} {pin : Pin}
    {width : Nat}
    (here : Hierarchy.sourcePin? (design.interfaceAt place) body.interfaces terminal = some (pin, width)) :
    design.driver? (sourceDriver place body terminal) = some (pin.at (design.path place), width) := by
  cases terminal with
  | port k =>
    obtain ⟨port, member, same⟩ := Option.map_eq_some_iff.mp here
    cases same
    simp only [sourceDriver, driver?, slot?, member, Option.map_some]
    rfl
  | pin i k =>
    have same := design.entryIn (i := i) found
    simp only [Hierarchy.sourcePin?, Hierarchy.interfacesAt] at here
    cases entry : body.get? i with
    | none => simp [entry] at here
    | some known =>
      rw [entry] at same here
      obtain ⟨port, member, last⟩ := Option.map_eq_some_iff.mp here
      cases last
      cases known with
      | primitive name primitive =>
        have single : port = ⟨primitive.output.1, primitive.output.2⟩ := by
          cases k with
          | zero => exact (Option.some.inj member).symm
          | succ k => cases member
        simp only [sourceDriver, entry, driver?, origin?, same, pathIn same]
        rw [single]
        rfl
      | scope name child interface wires inner =>
        have outer : design.interfaceAt (i :: place) = interface := interfaceIn same
        have ports : interface.outputs[k]? = some port := member
        simp only [sourceDriver, entry, driver?, slot?, outer, ports, Option.map_some, pathIn same]
        rfl

theorem driverInAt (found : design.scope? place = some (wires, body)) (terminal : Terminal) :
    design.driverIn place terminal =
      match wires.find? (·.sink = terminal) with
      | none => .undriven
      | some wire => sourceDriver place body wire.source := by
  unfold driverIn
  rw [found]
  cases hit : wires.find? (·.sink = terminal) with
  | none => simp only [hit]
  | some wire =>
    cases spot : wire.source with
    | port k => simp only [hit, sourceDriver, spot]
    | pin i k =>
      cases here : body.get? i with
      | none => simp only [hit, sourceDriver, spot, here]
      | some entry =>
        cases entry with
        | primitive | scope => simp only [hit, sourceDriver, spot, here]

end Slots

namespace Of

variable {design : Design} {circuit : Circuit} {library : Library} {root : Nat}
  (of : design.Of circuit library root)
include of

theorem driverInJoined {place : Place} {terminal : Terminal} (driven : design.driverIn place terminal ≠ .undriven) :
    ∃ source sink width, design.driver? (design.driverIn place terminal) = some (source, width) ∧
      design.slot? (sinkSlot place terminal) = some (sink, width) ∧ circuit.Joined root source sink := by
  cases found : design.scope? place with
  | none =>
    rw [driverIn, found] at driven
    exact absurd rfl driven
  | some scope =>
    obtain ⟨wires, body⟩ := scope
    rw [driverInAt found] at driven ⊢
    cases hit : wires.find? (·.sink = terminal) with
    | none =>
      rw [hit] at driven
      exact absurd rfl driven
    | some wire =>
      have here : wire.sink = terminal := by simpa using List.find?_some hit
      obtain ⟨id, within, outer, expanded⟩ := of.scopeAt found
      rcases expanded.closed.joins.fromNet wire (List.mem_of_find?_eq_some hit) with old | made
      · exact nomatch old
      · obtain ⟨net, mem, pin, sink, width, joined⟩ := made
        have source := Hierarchy.sourceAt joined.source
        have target := Hierarchy.sinkAt joined.sink
        rw [← outer] at source target
        refine ⟨_, _, width, sourceDriverAt found source, ?_, .net within mem sink⟩
        rw [sinkSlotAt found, ← here, target, Option.map_some]

theorem driverJoined {slot : Slot} {sink : List String × String} {width : Nat}
    (known : design.slot? slot = some (sink, width)) (driven : design.driver slot ≠ .undriven) :
    ∃ source, design.driver? (design.driver slot) = some (source, width) ∧
      Relation.ReflTransGen (circuit.Joined root) source sink := by
  have inner : ∀ place terminal, slot = sinkSlot place terminal → design.driver slot = design.driverIn place terminal →
      ∃ source, design.driver? (design.driver slot) = some (source, width) ∧
        Relation.ReflTransGen (circuit.Joined root) source sink := by
    intro place terminal same driver
    rw [driver] at driven ⊢
    obtain ⟨source, sink', width', driverAt, slotAt, joined⟩ := of.driverInJoined driven
    rw [← same, known] at slotAt
    cases slotAt
    exact ⟨source, driverAt, .single joined⟩
  cases slot with
  | output place k => exact inner place (.port k) rfl rfl
  | input place k =>
    cases place with
    | cons i place => exact inner place (.pin i k) rfl rfl
    | nil => exact ⟨sink, known, .refl⟩

end Of

end Design

end CircuitSim
