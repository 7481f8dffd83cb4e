import CircuitSim.Proofs.Instantiation
import CircuitSim.Proofs.Tapping
import Mathlib.Data.Set.Function

/-! The taps of a graph are the inputs of the instances in its hierarchy, each of them once. Main statement:
`tapsEnumerate`. -/
namespace CircuitSim

/- An input of an instance at some depth, with its width and the definition that the instance is directly in. -/
inductive Circuit.TapAt (circuit : Circuit) (library : Library) (root : Nat) : List String × String → Nat → Nat → Prop
  | port {path : List String} {id child : Nat} {inst : Instance} {name : String} {port : Port}
      (outer : circuit.Within root path id) (mem : inst ∈ (circuit.definition id).instances)
      (part : inst.part = .definition name) (found : circuit.lookup name = .ok child)
      (listed : port ∈ (circuit.definition child).inputs) :
      TapAt circuit library root (path ++ [inst.name], port.name) port.width id
  | pin {path : List String} {id : Nat} {inst : Instance} {kind : String} {args : Args} {primitive : Primitive} {pin : Port}
      (outer : circuit.Within root path id) (mem : inst ∈ (circuit.definition id).instances)
      (part : inst.part = .primitive kind args)
      (built : library.build kind args (".".intercalate (path ++ [inst.name])) = .ok primitive)
      (listed : pin ∈ primitive.interface.inputs) :
      TapAt circuit library root (path ++ [inst.name], pin.name) pin.width id

namespace Circuit.TapAt

variable {circuit : Circuit} {library : Library} {root : Nat} {pin : List String × String} {width id : Nat}

theorem input (tapped : circuit.TapAt library root pin width id) : circuit.InputAt library root pin width := by
  cases tapped with
  | port outer mem part found listed =>
    exact .port (outer.inside mem part found) (List.append_ne_nil_of_right_ne_nil _ (List.cons_ne_nil _ _)) listed
  | pin outer mem part built listed => exact .pin (.inside outer mem part built) listed

theorem holder (tapped : circuit.TapAt library root pin width id) : ∃ path inst, circuit.Within root path id ∧
    inst ∈ (circuit.definition id).instances ∧ pin.1 = path ++ [inst.name] := by
  cases tapped with
  | port outer mem => exact ⟨_, _, outer, mem, rfl⟩
  | pin outer mem => exact ⟨_, _, outer, mem, rfl⟩

theorem known (tapped : circuit.TapAt library root pin width id) : id < circuit.size := by
  obtain ⟨_, inst, -, mem, -⟩ := tapped.holder
  exact instanceKnown mem

theorem sameHolder (named : circuit.Named) {width' id' : Nat} (tapped : circuit.TapAt library root pin width id)
    (tapped' : circuit.TapAt library root pin width' id') : id = id' := by
  obtain ⟨path, inst, outer, -, path₁⟩ := tapped.holder
  obtain ⟨path', inst', outer', -, path₂⟩ := tapped'.holder
  obtain ⟨rfl, -⟩ := List.append_inj' (path₁.symm.trans path₂) rfl
  exact withinSame named outer outer'

end Circuit.TapAt

namespace Hierarchy

variable {circuit : Circuit} {library : Library} {root : Nat}

theorem inputSlotsPorts {definition : Nat} {path : List String} {place : Place} {ports : List Port} {tap : TapSlot}
    (mem : tap ∈ inputSlots definition path place ports) :
    tap.path = path ∧ tap.definition = definition ∧ tap.pin ∈ ports := by
  obtain ⟨⟨port, k⟩, listed, rfl⟩ := List.mem_map.mp mem
  exact ⟨rfl, rfl, List.mem_of_getElem? (List.mk_mem_zipIdx_iff_getElem?.mp listed)⟩

theorem expandTapped {depth : Nat} {path : List String} {id : Nat} {wires : List Wire} {body : Hierarchy}
    (ok : expand circuit library depth path id = .ok (wires, body)) (within : circuit.Within root path id) :
    ∀ place i, ∀ tap ∈ body.tapSlots id path place i,
      circuit.TapAt library root (tap.path, tap.pin.name) tap.pin.width tap.definition := by
  refine @expandWithin circuit library root (fun path id body => ∀ place i, ∀ tap ∈ body.tapSlots id path place i,
    circuit.TapAt library root (tap.path, tap.pin.name) tap.pin.width tap.definition)
    (fun _ _ _ _ => nofun) ?primitive ?scope _ _ _ _ _ ok within
  case primitive =>
    intro path id inst kind args made tail outer mem part built behind place i
    refine List.forall_mem_append.mpr ⟨fun tap first => ?_, behind place (i + 1)⟩
    obtain ⟨path, holder, listed⟩ := inputSlotsPorts first
    rw [path, holder]
    exact .pin outer mem part built listed
  case scope =>
    intro path id inst name child wires inner tail outer mem part found inside behind place i
    refine List.forall_mem_append.mpr ⟨fun tap first => ?_, List.forall_mem_append.mpr
      ⟨inside (i :: place) 0, behind place (i + 1)⟩⟩
    obtain ⟨path, holder, listed⟩ := inputSlotsPorts first
    rw [path, holder]
    exact .port outer mem part found listed

end Hierarchy

structure Tap.Stands (slot : TapSlot) (tap : Tap) : Prop where
  path : tap.path = slot.path
  pin : tap.pin = slot.pin.name
  width : tap.width = slot.pin.width
  definition : tap.definition = slot.definition

theorem Design.flattenTaps {design : Design} {graph : Graph} (ok : design.flatten = .ok graph) :
    List.Forall₂ Tap.Stands design.tapSlots graph.taps := by
  obtain ⟨nodes, -, ok⟩ := Result.okBind ok
  obtain ⟨outputs, -, ok⟩ := Result.okBind ok
  obtain ⟨taps, tapped, ok⟩ := Result.okBind ok
  obtain ⟨order, -, done⟩ := Result.okBind ok
  cases done
  refine (Result.okMapM tapped).imp fun slot tap ok => ?_
  obtain ⟨source, -, done⟩ := Result.okBind ok
  cases done
  exact ⟨rfl, rfl, rfl, rfl⟩

namespace Circuit

variable {circuit : Circuit} {library : Library} {root : Nat} {graph : Graph}
  (flat : circuit.flatten library root = .ok graph)
include flat

theorem tapsHeld : ∀ tap ∈ graph.taps, circuit.TapAt library root (tap.path, tap.pin) tap.width tap.definition := by
  intro tap mem
  obtain ⟨_, -, ok⟩ := Result.okBind flat
  obtain ⟨design, made, flattened⟩ := Result.okBind ok
  obtain ⟨⟨wires, body⟩, expanded, done⟩ := Result.okBind made
  cases done
  obtain ⟨slot, listed, stands⟩ := Result.forallMem (Design.flattenTaps flattened) tap mem
  rw [stands.path, stands.pin, stands.width, stands.definition]
  exact Hierarchy.expandTapped expanded .root _ _ slot listed

theorem heldTapped (named : circuit.Named) {pin : List String × String} {width id : Nat}
    (held : circuit.TapAt library root pin width id) :
    ∃ tap ∈ graph.taps, (tap.path, tap.pin) = pin ∧ tap.width = width ∧ tap.definition = id := by
  obtain ⟨design, made⟩ := flattenMade flat
  obtain ⟨path, name⟩ := pin
  obtain ⟨tap, mem, rfl, rfl, wide⟩ := made.inputTapped named held.input
  exact ⟨tap, mem, rfl, wide, (tapsHeld flat tap mem).sameHolder named held⟩

end Circuit

namespace Taps

structure Records (tap : Tap) (record : TapRecord) : Prop where
  path : record.path = tap.path
  pin : record.pin = tap.pin
  width : record.width = tap.width
  definition : record.definition = tap.definition

structure Stores (record : TapRecord) (member : Member) : Prop where
  name : member.name = record.name
  width : member.width = record.width
  offset : member.offset = record.offset

theorem zipRecorded {tapped : List Tap} {members : List Member} (named : List.Forall₂ (fun (tap : Tap) (member : Member) =>
      (tapName tap.path tap.pin, tap.width) = (member.name, member.width)) tapped members) :
    let records := (tapped.zip members).map fun both =>
      TapRecord.mk both.1.path both.1.pin both.1.width both.1.definition both.2.offset
    List.Forall₂ Records tapped records ∧ List.Forall₂ Stores records members := by
  induction named with
  | nil => exact ⟨.nil, .nil⟩
  | cons same rest ih =>
    obtain ⟨name, width⟩ := Prod.mk.inj same
    exact ⟨.cons ⟨rfl, rfl, rfl, rfl⟩ ih.1, .cons ⟨name.symm, width.symm, rfl⟩ ih.2⟩

variable {rules : Rules} {graph : Graph} {taps : Taps} (made : ofGraph rules graph = .ok taps)
include made

theorem recorded : List.Forall₂ Records graph.taps taps.records ∧
    List.Forall₂ Stores taps.records taps.region.layout.members := by
  obtain ⟨region, laidOut, done⟩ := Result.okBind made
  cases done
  obtain ⟨layout, placed, rfl⟩ := Result.okMap laidOut
  obtain ⟨-, -, entries⟩ := Layout.ofMembersPlaced placed
  rw [← List.forall₂_eq_eq_eq, List.forall₂_map_left_iff, List.forall₂_map_right_iff] at entries
  exact zipRecorded (entries.flip.imp fun _ _ same => same.symm)

theorem recordsDistinct (distinct : (graph.taps.map fun tap => (tap.path, tap.pin)).Nodup) :
    (taps.records.map fun record => (record.path, record.pin)).Nodup := by
  have same : graph.taps.map (fun tap => (tap.path, tap.pin)) =
      taps.records.map fun record => (record.path, record.pin) := by
    rw [← List.forall₂_eq_eq_eq, List.forall₂_map_left_iff, List.forall₂_map_right_iff]
    exact (recorded made).1.imp fun _ _ records => Prod.ext records.path.symm records.pin.symm
  exact same ▸ distinct

end Taps

theorem Taps.ofPartition {taps : Taps} {count : Nat} (distinct : taps.records.Nodup)
    (known : ∀ record ∈ taps.records, record.definition < count) :
    ((List.range count).flatMap taps.of).Perm taps.records := by
  have ofMem : ∀ {id : Nat} {record : TapRecord}, record ∈ taps.of id ↔ record ∈ taps.records ∧ record.definition = id := by
    intro id record
    rw [of, List.mem_filter, decide_eq_true_iff]
  refine (List.perm_ext_iff_of_nodup ?_ distinct).mpr fun record => ?_
  · refine List.nodup_flatMap.mpr ⟨fun id _ => distinct.filter _, ?_⟩
    refine List.nodup_range.imp fun apart record mem mem' => ?_
    exact apart ((ofMem.mp mem).2.symm.trans (ofMem.mp mem').2)
  · rw [List.mem_flatMap]
    constructor
    · rintro ⟨id, -, mem⟩
      exact (ofMem.mp mem).1
    · exact fun mem => ⟨record.definition, List.mem_range.mpr (known record mem), ofMem.mpr ⟨mem, rfl⟩⟩

/-- The taps of a graph are the inputs of all instances in the hierarchy, each of them once, with its width and the
definition that the instance is directly in. When taps are laid out, a record and a member of the region stand for
each of them, in order, and the records are divided among the definitions. -/
theorem Circuit.tapsEnumerate {circuit : Circuit} (checked : circuit.validate = .ok ()) {library : Library} {root : Nat}
    {graph : Graph} (flat : circuit.flatten library root = .ok graph) :
    Set.BijOn (fun i => ((graph.taps.getD i default).path, (graph.taps.getD i default).pin)) {i | i < graph.taps.length}
      {pin | ∃ width id, circuit.TapAt library root pin width id} ∧
    (∀ tap ∈ graph.taps, ∀ width id, circuit.TapAt library root (tap.path, tap.pin) width id ↔
      width = tap.width ∧ id = tap.definition) ∧
    ∀ rules taps, Taps.ofGraph rules graph = .ok taps →
      List.Forall₂ Taps.Records graph.taps taps.records ∧ List.Forall₂ Taps.Stores taps.records taps.region.layout.members ∧
      taps.records.Nodup ∧ (∀ id, (taps.of id).Sublist taps.records) ∧
      ((List.range circuit.size).flatMap taps.of).Perm taps.records := by
  have named := validateNamed checked
  obtain ⟨design, made⟩ := flattenMade flat
  have distinct := made.tapsDistinct named
  have at' : ∀ {i}, i < graph.taps.length → graph.taps[i]? = some (graph.taps.getD i default) := by
    intro i inside
    rw [List.getD_eq_getElem?_getD, List.getElem?_eq_getElem inside, Option.getD_some]
  refine ⟨⟨fun i inside => ?_, fun i inside j inside' same => ?_, ?_⟩, fun tap mem width id => ⟨fun held => ?_, ?_⟩,
    fun rules taps laidOut => ?_⟩
  · exact ⟨_, _, tapsHeld flat _ (List.mem_of_getElem? (at' inside))⟩
  · exact Result.indexInj distinct (at' inside) (at' inside') same
  · rintro pin ⟨width, id, held⟩
    obtain ⟨tap, mem, rfl, -⟩ := heldTapped flat named held
    obtain ⟨i, here⟩ := List.mem_iff_getElem?.mp mem
    obtain ⟨inside, -⟩ := List.getElem?_eq_some_iff.mp here
    obtain rfl := Option.some.inj ((at' inside).symm.trans here)
    exact ⟨i, inside, rfl⟩
  · obtain ⟨other, mem', same, rfl, rfl⟩ := heldTapped flat named held
    obtain rfl := List.inj_on_of_nodup_map distinct mem' mem same
    exact ⟨rfl, rfl⟩
  · rintro ⟨rfl, rfl⟩
    exact tapsHeld flat tap mem
  · obtain ⟨records, stores⟩ := Taps.recorded laidOut
    have single := (Taps.recordsDistinct laidOut distinct).of_map _
    refine ⟨records, stores, single, fun id => List.filter_sublist, Taps.ofPartition single fun record mem => ?_⟩
    obtain ⟨tap, listed, stands⟩ := Result.forallMem records record mem
    rw [stands.definition]
    exact (tapsHeld flat tap listed).known

theorem Simulator.countersEnumerated : counters.validate = .ok () ∧ ∃ graph taps,
    counters.flatten .builtin 1 = .ok graph ∧ Taps.ofGraph .bitPacked graph = .ok taps ∧ graph.taps.length = 8 ∧
      (taps.of 1).map (fun record => (record.path, record.pin)) = [(["first"], "step"), (["second"], "step")] ∧
      (taps.of 0 ++ taps.of 1).Perm taps.records := by
  have checked : counters.validate = .ok () := by decide +kernel
  have evaluated : (counters.flatten .builtin 1).toOption.any (fun graph => decide (graph.taps.length = 8) &&
      (Taps.ofGraph .bitPacked graph).toOption.any (fun taps => decide ((taps.of 1).map (fun record =>
        (record.path, record.pin)) = [(["first"], "step"), (["second"], "step")]))) = true := by
    decide +kernel
  obtain ⟨graph, flat, counted⟩ := Result.okAny evaluated
  obtain ⟨eight, laid⟩ := Bool.and_eq_true_iff.mp counted
  obtain ⟨taps, laidOut, own⟩ := Result.okAny laid
  obtain ⟨-, -, divided⟩ := Circuit.tapsEnumerate checked flat
  obtain ⟨-, -, -, -, all⟩ := divided _ taps laidOut
  have both : (List.range counters.size).flatMap taps.of = taps.of 0 ++ (taps.of 1 ++ []) := rfl
  rw [both, List.append_nil] at all
  exact ⟨checked, graph, taps, flat, laidOut, of_decide_eq_true eight, of_decide_eq_true own, all⟩

end CircuitSim
