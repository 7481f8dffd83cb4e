import CircuitSim.Proofs.Wiring
import Mathlib.Data.List.Nodup

/-! When the nets of a definition can be wired: each joins pins that are there and of one width, and no pin is a sink
twice. Main statement: `connectAllIff`. -/
namespace CircuitSim.Hierarchy

theorem findPortIff {ports : List Port} (distinct : (ports.map (·.name)).Nodup) {name : String} {start width : Nat} :
    (∃ k, findPort? name start ports = some (k, width)) ↔ Port.mk name width ∈ ports := by
  constructor
  · rintro ⟨k, found⟩
    exact List.mem_of_getElem? (findPortAt found).2
  · intro mem
    induction ports generalizing start with
    | nil => exact nomatch mem
    | cons port rest ih =>
      obtain ⟨fresh, distinct⟩ := List.nodup_cons.mp distinct
      unfold findPort?
      rcases List.mem_cons.mp mem with rfl | later
      · exact ⟨start, if_pos rfl⟩
      · have other : port.name ≠ name := fun same => fresh (List.mem_map.mpr ⟨_, later, same.symm⟩)
        rw [if_neg other]
        exact ih distinct later

theorem findLastIff {α : Type} {xs : List (String × α)} (distinct : (xs.map (·.1)).Nodup) {name : String} {start : Nat}
    {x : α} : (∃ i, findLast? name start xs = some (i, x)) ↔ (name, x) ∈ xs := by
  constructor
  · rintro ⟨i, found⟩
    exact List.mem_of_getElem? (findLastAt found).2
  · intro mem
    induction xs generalizing start with
    | nil => exact nomatch mem
    | cons entry rest ih =>
      obtain ⟨key, y⟩ := entry
      obtain ⟨fresh, distinct⟩ := List.nodup_cons.mp distinct
      unfold findLast?
      rcases List.mem_cons.mp mem with same | later
      · cases same
        -- no later entry has the name
        have none : findLast? name (start + 1) rest = none := by
          cases hit : findLast? name (start + 1) rest with
          | none => rfl
          | some found =>
            have behind := (findLastAt hit).2
            exact absurd (List.mem_map.mpr ⟨_, List.mem_of_getElem? behind, rfl⟩) fresh
        exact ⟨start, by rw [none, if_pos rfl]⟩
      · obtain ⟨i, found⟩ := @ih distinct (start + 1) later
        exact ⟨i, by rw [found]⟩

def Listed (own : List Port) (side : Interface → List Port) (locals : List (String × Interface)) (pin : Pin)
    (width : Nat) : Prop :=
  match pin.owner with
  | none => Port.mk pin.port width ∈ own
  | some owner => ∃ interface, (owner, interface) ∈ locals ∧ Port.mk pin.port width ∈ side interface

structure Distinct (interface : Interface) (locals : List (String × Interface)) : Prop where
  ports : ((interface.inputs ++ interface.outputs).map (·.name)).Nodup
  owners : (locals.map (·.1)).Nodup
  pins : ∀ entry ∈ locals, ((entry.2.inputs ++ entry.2.outputs).map (·.name)).Nodup

theorem sidesDistinct {interface : Interface}
    (distinct : ((interface.inputs ++ interface.outputs).map (·.name)).Nodup) :
    (interface.inputs.map (·.name)).Nodup ∧ (interface.outputs.map (·.name)).Nodup := by
  rw [List.map_append] at distinct
  exact ⟨distinct.of_append_left, distinct.of_append_right⟩

theorem listedCongr {own : List Port} {side : Interface → List Port} {locals locals' : List (String × Interface)}
    (same : ∀ entry, entry ∈ locals ↔ entry ∈ locals') {pin : Pin} {width : Nat} :
    Listed own side locals pin width ↔ Listed own side locals' pin width := by
  obtain ⟨owner, name⟩ := pin
  cases owner with
  | none => exact Iff.rfl
  | some owner => exact exists_congr fun interface => and_congr_left fun _ => same (owner, interface)

section Resolve

variable {definition : Definition} {locals : List (String × Interface)} {pin : Pin} {width : Nat}

theorem pickIff {right other : List Port} (distinct : (right.map (·.name)).Nodup) {make : Nat → Terminal}
    {wrong : Defect} : (∃ terminal, pick definition pin right other make wrong = .ok (terminal, width)) ↔
      Port.mk pin.port width ∈ right := by
  constructor
  · rintro ⟨terminal, ok⟩
    obtain ⟨k, -, here⟩ := pickAt ok
    exact List.mem_of_getElem? here
  · intro mem
    obtain ⟨k, found⟩ := (@findPortIff right distinct pin.port 0 width).mpr mem
    exact ⟨make k, by rw [pick, found]⟩

theorem localIff {side other : Interface → List Port} (owners : (locals.map (·.1)).Nodup)
    (pins : ∀ entry ∈ locals, ((side entry.2).map (·.name)).Nodup) {owner : String} {wrong : Defect} {fault : Fault} :
    (∃ terminal, (match findLast? owner 0 locals with
      | some (i, interface) => pick definition pin (side interface) (other interface) (.pin i) wrong
      | none => .error fault) = .ok (terminal, width)) ↔
    ∃ interface, (owner, interface) ∈ locals ∧ Port.mk pin.port width ∈ side interface := by
  constructor
  · rintro ⟨terminal, ok⟩
    split at ok
    · rename_i i interface found
      have mem := (findLastIff owners).mp ⟨i, found⟩
      exact ⟨interface, mem, (pickIff (pins _ mem)).mp ⟨terminal, ok⟩⟩
    · exact nomatch ok
  · rintro ⟨interface, mem, port⟩
    obtain ⟨i, found⟩ := (@findLastIff _ _ owners owner 0 interface).mpr mem
    rw [found]
    exact (pickIff (pins _ mem)).mpr port

variable (distinct : Distinct definition.interface locals)
include distinct

theorem sourceIff : (∃ terminal, source definition locals pin = .ok (terminal, width)) ↔
    Listed definition.inputs (·.outputs) locals pin width := by
  obtain ⟨owner, name⟩ := pin
  cases owner with
  | none => exact pickIff (sidesDistinct distinct.ports).1
  | some owner => exact localIff distinct.owners fun entry mem => (sidesDistinct (distinct.pins entry mem)).2

theorem sinkIff : (∃ terminal, sink definition locals pin = .ok (terminal, width)) ↔
    Listed definition.outputs (·.inputs) locals pin width := by
  obtain ⟨owner, name⟩ := pin
  cases owner with
  | none => exact pickIff (sidesDistinct distinct.ports).2
  | some owner => exact localIff distinct.owners fun entry mem => (sidesDistinct (distinct.pins entry mem)).1

end Resolve

section Connect

variable {definition : Definition} {locals : List (String × Interface)} {path : List String}

def Uses (definition : Definition) (locals : List (String × Interface)) (wires : List Wire) (pins : List Pin) : Prop :=
  List.Forall₂ (fun wire pin => ∃ width, sink definition locals pin = .ok (wire.sink, width)) wires pins

theorem usesMem {wires : List Wire} {pins : List Pin} (uses : Uses definition locals wires pins) {pin : Pin}
    {target : Terminal} {width : Nat} (ok : sink definition locals pin = .ok (target, width)) :
    wires.any (·.sink = target) = true ↔ pin ∈ pins := by
  rw [List.any_eq_true]
  constructor
  · rintro ⟨wire, mem, same⟩
    obtain ⟨other, listed, width', ok'⟩ := Result.forallMem uses.flip wire mem
    rw [of_decide_eq_true same] at ok'
    have pins := (sinkAt ok').symm.trans (sinkAt ok)
    exact (Prod.mk.inj (Option.some.inj pins)).1 ▸ listed
  · intro mem
    obtain ⟨wire, listed, width', ok'⟩ := Result.forallMem uses pin mem
    exact ⟨wire, listed, decide_eq_true (Prod.mk.inj (Except.ok.inj (ok'.symm.trans ok))).1⟩

section Net

variable {net : Net} {terminal : Terminal} {width : Nat}

theorem connectUses {pins used : List Pin} {before wires : List Wire}
    (ok : connect path definition locals net terminal width pins before = .ok wires)
    (uses : Uses definition locals before used) : Uses definition locals wires (pins.reverse ++ used) := by
  induction pins generalizing before used with
  | nil =>
    cases ok
    exact uses
  | cons pin rest ih =>
    obtain ⟨⟨target, width'⟩, found, ok⟩ := Result.okBind ok
    simp only at ok
    split at ok
    · exact nomatch ok
    · split at ok
      · exact nomatch ok
      · rw [List.reverse_cons, List.append_assoc]
        exact ih ok (.cons ⟨width', found⟩ uses)

theorem connectIff {pins used : List Pin} {before : List Wire} (uses : Uses definition locals before used)
    (distinct : used.Nodup) : (∃ wires, connect path definition locals net terminal width pins before = .ok wires) ↔
      (∀ pin ∈ pins, ∃ target, sink definition locals pin = .ok (target, width)) ∧ (pins.reverse ++ used).Nodup := by
  induction pins generalizing before used with
  | nil => exact ⟨fun _ => ⟨nofun, distinct⟩, fun _ => ⟨before, rfl⟩⟩
  | cons pin rest ih =>
    rw [List.reverse_cons, List.append_assoc, List.singleton_append]
    constructor
    · rintro ⟨wires, ok⟩
      obtain ⟨⟨target, width'⟩, found, ok⟩ := Result.okBind ok
      simp only at ok
      split at ok
      · exact nomatch ok
      rename_i same
      split at ok
      · exact nomatch ok
      rename_i unused
      rw [not_not] at same
      subst same
      have fresh : pin ∉ used := fun mem => unused ((usesMem uses found).mpr mem)
      obtain ⟨known, distinct⟩ := (ih (.cons ⟨width', found⟩ uses) (List.nodup_cons.mpr ⟨fresh, distinct⟩)).mp ⟨wires, ok⟩
      refine ⟨fun other mem => ?_, distinct⟩
      rcases List.mem_cons.mp mem with rfl | later
      · exact ⟨target, found⟩
      · exact known other later
    · rintro ⟨known, distinct'⟩
      obtain ⟨target, found⟩ := known pin List.mem_cons_self
      obtain ⟨fresh, -⟩ := List.nodup_cons.mp distinct'.of_append_right
      have unused : ¬before.any (·.sink = target) = true := fun any => fresh ((usesMem uses found).mp any)
      obtain ⟨wires, ok⟩ := (@ih (pin :: used) (⟨target, terminal⟩ :: before) (.cons ⟨width, found⟩ uses)
        distinct'.of_append_right).mpr ⟨fun other mem => known other (List.mem_cons_of_mem pin mem), distinct'⟩
      refine ⟨wires, ?_⟩
      unfold connect
      rw [found]
      refine Eq.trans ?_ ok
      simp only [bind, Except.bind, ne_eq, not_true_eq_false, if_false, if_neg unused]

end Net

def Fits (definition : Definition) (locals : List (String × Interface)) (net : Net) : Prop :=
  ∃ terminal width, source definition locals net.source = .ok (terminal, width) ∧
    ∀ pin ∈ net.sinks, ∃ target, sink definition locals pin = .ok (target, width)

theorem fitsIff (distinct : Distinct definition.interface locals) {net : Net} : Fits definition locals net ↔
    ∃ width, Listed definition.inputs (·.outputs) locals net.source width ∧
      ∀ pin ∈ net.sinks, Listed definition.outputs (·.inputs) locals pin width := by
  rw [Fits, exists_comm]
  refine exists_congr fun width => ?_
  rw [← sourceIff distinct, exists_and_right]
  exact and_congr_right fun _ => forall₂_congr fun pin _ => sinkIff distinct

theorem connectAllFrom {nets : List Net} {used : List Pin} {before : List Wire} (uses : Uses definition locals before used)
    (distinct : used.Nodup) : (∃ wires, connectAll path definition locals nets before = .ok wires) ↔
      (∀ net ∈ nets, Fits definition locals net) ∧ ((nets.flatMap (·.sinks)).reverse ++ used).Nodup := by
  induction nets generalizing before used with
  | nil => exact ⟨fun _ => ⟨nofun, distinct⟩, fun _ => ⟨before, rfl⟩⟩
  | cons net rest ih =>
    rw [List.flatMap_cons, List.reverse_append, List.append_assoc]
    constructor
    · rintro ⟨wires, ok⟩
      obtain ⟨⟨terminal, width⟩, known, ok⟩ := Result.okBind ok
      obtain ⟨between, connected, ok⟩ := Result.okBind ok
      obtain ⟨pins, distinct'⟩ := (connectIff uses distinct).mp ⟨between, connected⟩
      obtain ⟨nets, distinct''⟩ := (ih (connectUses connected uses) distinct').mp ⟨wires, ok⟩
      refine ⟨fun other mem => ?_, distinct''⟩
      rcases List.mem_cons.mp mem with rfl | later
      · exact ⟨terminal, width, known, pins⟩
      · exact nets other later
    · rintro ⟨fit, distinct'⟩
      obtain ⟨terminal, width, known, pins⟩ := fit net List.mem_cons_self
      obtain ⟨between, connected⟩ := (@connectIff definition locals path net terminal width net.sinks used before uses
        distinct).mpr ⟨pins, distinct'.of_append_right⟩
      obtain ⟨wires, ok⟩ := (ih (connectUses connected uses) distinct'.of_append_right).mpr
        ⟨fun other mem => fit other (List.mem_cons_of_mem net mem), distinct'⟩
      refine ⟨wires, ?_⟩
      unfold connectAll
      rw [known]
      exact (congrArg (· >>= _) connected).trans ok

theorem connectAllIff {nets : List Net} : (∃ wires, connectAll path definition locals nets [] = .ok wires) ↔
    (∀ net ∈ nets, Fits definition locals net) ∧ (nets.flatMap (·.sinks)).Nodup := by
  rw [connectAllFrom .nil List.nodup_nil, List.append_nil, List.nodup_reverse]

end Connect

end CircuitSim.Hierarchy
