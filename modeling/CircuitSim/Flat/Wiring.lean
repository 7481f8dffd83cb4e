import CircuitSim.Flat.Hierarchy

/-!
Where a signal comes from. A slot is a pin that takes its value from elsewhere: an input of an instance, or an
output port of a definition's instance. The driver of a slot is found in the wires of one definition; `follow`
goes on from alias to alias until it meets a primitive's output or a port of the whole design.
-/
namespace CircuitSim

/-- The numbers of the instances around a place, the innermost first; the design itself is at `[]`. -/
abbrev Place := List Nat

/-- Pin `k` of the instance at a place, or port `k` of the design itself. -/
inductive Slot
  | input (place : Place) (k : Nat)
  | output (place : Place) (k : Nat)
  deriving DecidableEq, Repr, Inhabited

/-- Where a value is made: at an input port of the design, or by the primitive at a place. -/
inductive Origin
  | input (k : Nat)
  | primitive (place : Place)
  deriving DecidableEq, Repr, Inhabited

inductive Driver (σ : Type)
  | undriven
  | origin (origin : Origin)
  | alias (slot : σ)
  deriving DecidableEq, Repr

/-- How a walk along drivers ends. A loop lists every slot that was passed. -/
inductive Ending (σ : Type)
  | origin (origin : Origin)
  | undriven (slot : σ)
  | loop (passed : List σ)
  deriving DecidableEq, Repr

/-- Follows aliases from a slot. With more steps than there are slots, one of them comes up twice before the
steps are used up. -/
def follow {σ : Type} [DecidableEq σ] (driver : σ → Driver σ) : Nat → List σ → σ → Ending σ
  | 0, passed, _ => .loop passed
  | steps + 1, passed, slot =>
    match driver slot with
    | .origin origin => .origin origin
    | .undriven => .undriven slot
    | .alias next => if slot ∈ passed then .loop passed else follow driver steps (passed ++ [slot]) next

inductive Entry
  | primitive (name : String) (primitive : Primitive)
  | scope (name : String) (definition : Nat) (interface : Interface) (wires : List Wire) (inner : Hierarchy)
  deriving DecidableEq, Repr

namespace Entry

def name : Entry → String
  | primitive name _ => name
  | scope name .. => name

def interface : Entry → Interface
  | primitive _ p => p.interface
  | scope _ _ interface _ _ => interface

end Entry

namespace Hierarchy

def get? : Hierarchy → Nat → Option Entry
  | empty, _ => none
  | primitive name p _, 0 => some (.primitive name p)
  | scope name definition interface wires inner _, 0 => some (.scope name definition interface wires inner)
  | primitive _ _ rest, i + 1 => rest.get? i
  | scope _ _ _ _ _ rest, i + 1 => rest.get? i

def slots : Hierarchy → Nat
  | empty => 0
  | primitive _ p rest => p.inputs.length + rest.slots
  | scope _ _ interface _ inner rest =>
    interface.inputs.length + interface.outputs.length + inner.slots + rest.slots

end Hierarchy

namespace Design

def scope? (design : Design) : Place → Option (List Wire × Hierarchy)
  | [] => some (design.wires, design.body)
  | i :: place =>
    match design.scope? place with
    | some (_, body) =>
      match body.get? i with
      | some (.scope _ _ _ wires inner) => some (wires, inner)
      | _ => none
    | none => none

def item? (design : Design) : Place → Option Entry
  | [] => none
  | i :: place => (design.scope? place).bind fun (_, body) => body.get? i

def path (design : Design) : Place → List String
  | [] => []
  | i :: place => design.path place ++ [((design.item? (i :: place)).map Entry.name).getD ""]

def interfaceAt (design : Design) : Place → Interface
  | [] => design.interface
  | i :: place => ((design.item? (i :: place)).map Entry.interface).getD default

def slotName (design : Design) : Slot → String
  | .input place k =>
    Hierarchy.pinName (design.path place) ((design.interfaceAt place).inputs.getD k default).name
  | .output place k =>
    Hierarchy.pinName (design.path place) ((design.interfaceAt place).outputs.getD k default).name

def driverIn (design : Design) (place : Place) (sink : Terminal) : Driver Slot :=
  match design.scope? place with
  | none => .undriven
  | some (wires, body) =>
    match wires.find? (·.sink = sink) with
    | none => .undriven
    | some wire =>
      match wire.source with
      | .port k => .alias (.input place k)
      | .pin i k =>
        match body.get? i with
        | some (.primitive ..) => .origin (.primitive (i :: place))
        | some (.scope ..) => .alias (.output (i :: place) k)
        | none => .undriven

def driver (design : Design) : Slot → Driver Slot
  | .output place k => design.driverIn place (.port k)
  | .input [] k => .origin (.input k)
  | .input (i :: place) k => design.driverIn place (.pin i k)

def slots (design : Design) : Nat :=
  design.interface.inputs.length + design.interface.outputs.length + design.body.slots

def origin (design : Design) (slot : Slot) : Except Fault Origin :=
  match follow design.driver (design.slots + 2) [] slot with
  | .origin origin => .ok origin
  | .undriven slot => .error (.undriven (design.slotName slot))
  | .loop passed => .error (.combinationalCycle (passed.map design.slotName))

end Design

end CircuitSim
