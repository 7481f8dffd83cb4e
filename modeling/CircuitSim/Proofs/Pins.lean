import CircuitSim.Proofs.Naming
import Mathlib.Data.List.Nodup

/-! The numbers at the pins of a hierarchy when its inputs and the outputs of its primitives are given: nets carry
them from where they are made, and a pin gets one number at most. -/
namespace CircuitSim

inductive Circuit.Shows (circuit : Circuit) (root : Nat) (graph : Graph) (inputs values : Nat → Nat) :
    List String × String → Nat → Prop
  | input {k : Nat} {port : Port} (here : graph.inputs[k]? = some port) :
      Shows circuit root graph inputs values ([], port.name) (inputs k)
  | node {i : Nat} {node : Node} (here : graph.nodes[i]? = some node) :
      Shows circuit root graph inputs values (node.path, node.primitive.output.1) (values i)
  | net {source sink : List String × String} {n : Nat} (shown : Shows circuit root graph inputs values source n)
      (joined : circuit.Joined root source sink) : Shows circuit root graph inputs values sink n

theorem Circuit.Shows.along {circuit : Circuit} {root : Nat} {graph : Graph} {inputs values : Nat → Nat}
    {source sink : List String × String} {n : Nat} (shown : circuit.Shows root graph inputs values source n)
    (joined : Relation.ReflTransGen (circuit.Joined root) source sink) :
    circuit.Shows root graph inputs values sink n := by
  induction joined with
  | refl => exact shown
  | tail _ last ih => exact ih.net last

theorem Design.sinkDriver (design : Design) (place : Place) (terminal : Terminal) :
    design.driver (Design.sinkSlot place terminal) = design.driverIn place terminal := by
  cases terminal with
  | port | pin => rfl

namespace Design.Of

variable {design : Design} {circuit : Circuit} {library : Library} {root : Nat}
  (of : design.Of circuit library root)
include of

theorem joinedSink {source sink : List String × String} (joined : circuit.Joined root source sink) :
    ∃ place terminal scope width, design.scope? place = some scope ∧
      design.slot? (sinkSlot place terminal) = some (sink, width) ∧
      design.driver? (design.driverIn place terminal) = some (source, width) := by
  cases joined with
  | @net path id net pin within mem sink =>
    obtain ⟨place, wires, body, found, same, interface, expanded⟩ := of.withinPlace within
    have joins := expanded.closed.joins
    obtain ⟨wire, member, width, joined⟩ := joins.covered net mem pin sink
    have known := Hierarchy.sinkAt joined.sink
    have known' := Hierarchy.sourceAt joined.source
    have interface' : design.interfaceAt place = (circuit.definition id).interface := interface
    rw [← interface'] at known known'
    have hit : wires.find? (·.sink = wire.sink) = some wire := by
      cases hit : wires.find? (·.sink = wire.sink) with
      | none =>
        have missed := List.find?_eq_none.mp hit wire member
        exact absurd (decide_eq_true rfl) missed
      | some other =>
        have equal : other.sink = wire.sink := by simpa using List.find?_some hit
        have distinct := joins.single List.nodup_nil
        rw [List.inj_on_of_nodup_map distinct (List.mem_of_find?_eq_some hit) member equal]
    refine ⟨place, wire.sink, (wires, body), width, found, ?_, ?_⟩
    · rw [sinkSlotAt found, known, Option.map_some, same]
    · rw [driverInAt found, hit]
      simp only
      rw [sourceDriverAt found known', same]

theorem joinedDriver {source sink : List String × String} (joined : circuit.Joined root source sink) :
    ∃ slot width, design.slot? slot = some (sink, width) ∧
      design.driver? (design.driver slot) = some (source, width) := by
  obtain ⟨place, terminal, scope, width, -, known, drives⟩ := of.joinedSink joined
  exact ⟨sinkSlot place terminal, width, known, by rw [sinkDriver, drives]⟩

variable (named : circuit.Named)
include named

theorem joinedMakes {source sink : List String × String} (joined : circuit.Joined root source sink) {slot : Slot}
    {width : Nat} (known : design.slot? slot = some (source, width)) {origin : Origin}
    (made : design.Makes slot origin) :
    ∃ slot' width', design.slot? slot' = some (sink, width') ∧ design.Makes slot' origin := by
  obtain ⟨slot', width', sinkAt, driverAt⟩ := of.joinedDriver joined
  refine ⟨slot', width', sinkAt, ?_⟩
  cases drives : design.driver slot' with
  | undriven =>
    rw [drives] at driverAt
    exact nomatch driverAt
  | origin first =>
    rw [drives] at driverAt
    obtain ⟨own, ownAt, made'⟩ := originSlot driverAt
    obtain rfl := of.slotInj named known ownAt
    rw [makesUnique made made']
    exact .origin drives
  | «alias» next =>
    rw [drives] at driverAt
    obtain rfl := of.slotInj named known driverAt
    exact .along drives made

end Design.Of

/- Taps are the inputs of the instances. -/
section Taps

theorem Hierarchy.inputSlotsMem {definition k : Nat} {path : List String} {place : Place} {ports : List Port}
    {port : Port} : TapSlot.mk path port (.input place k) definition ∈ inputSlots definition path place ports ↔
      ports[k]? = some port := by
  constructor
  · intro mem
    obtain ⟨⟨other, j⟩, member, same⟩ := List.mem_map.mp mem
    cases same
    exact List.mk_mem_zipIdx_iff_getElem?.mp member
  · intro here
    exact List.mem_map.mpr ⟨(port, k), List.mk_mem_zipIdx_iff_getElem?.mpr here, rfl⟩

theorem Hierarchy.tapsEntry {body : Hierarchy} {definition i j k : Nat} {path : List String} {place : Place}
    {entry : Entry} {port : Port} (here : body.get? j = some entry) (known : entry.interface.inputs[k]? = some port) :
    TapSlot.mk (path ++ [entry.name]) port (.input ((i + j) :: place) k) definition ∈
      body.tapSlots definition path place i := by
  induction body generalizing i j with
  | empty => exact nomatch here
  | primitive name p rest ih =>
    cases j with
    | zero =>
      cases here
      exact List.mem_append_left _ (inputSlotsMem.mpr known)
    | succ j =>
      have behind := @ih (i + 1) j here
      rw [Nat.add_assoc, Nat.add_comm 1 j] at behind
      exact List.mem_append_right _ behind
  | scope name child interface wires inner rest _ ih =>
    cases j with
    | zero =>
      cases here
      exact List.mem_append_left _ (inputSlotsMem.mpr known)
    | succ j =>
      have behind := @ih (i + 1) j here
      rw [Nat.add_assoc, Nat.add_comm 1 j] at behind
      exact List.mem_append_right _ (List.mem_append_right _ behind)

theorem Hierarchy.tapsScope {body inner : Hierarchy} {definition i j child : Nat} {path : List String} {place : Place}
    {name : String} {interface : Interface} {wires : List Wire}
    (here : body.get? j = some (.scope name child interface wires inner)) :
    inner.tapSlots child (path ++ [name]) ((i + j) :: place) 0 ⊆ body.tapSlots definition path place i := by
  induction body generalizing i j with
  | empty => exact nomatch here
  | primitive other p rest ih =>
    cases j with
    | zero => exact nomatch here
    | succ j =>
      have behind := @ih (i + 1) j here
      rw [Nat.add_assoc, Nat.add_comm 1 j] at behind
      exact fun tap mem => List.mem_append_right _ (behind mem)
  | scope other child' interface' wires' inner' rest _ ih =>
    cases j with
    | zero =>
      cases here
      exact fun tap mem => List.mem_append_right _ (List.mem_append_left _ mem)
    | succ j =>
      have behind := @ih (i + 1) j here
      rw [Nat.add_assoc, Nat.add_comm 1 j] at behind
      exact fun tap mem => List.mem_append_right _ (List.mem_append_right _ (behind mem))

namespace Hierarchy

theorem inputSlotsBelow {definition : Nat} {path : List String} {place : Place} {ports : List Port} :
    ∀ tap ∈ inputSlots definition path place ports, ∃ k, tap.slot = .input place k := by
  intro tap mem
  obtain ⟨⟨port, k⟩, -, rfl⟩ := List.mem_map.mp mem
  exact ⟨k, rfl⟩

theorem inputSlotsDistinct {definition : Nat} {path : List String} {place : Place} {ports : List Port} :
    ((inputSlots definition path place ports).map (·.slot)).Nodup := by
  have slots : (inputSlots definition path place ports).map (·.slot) =
      (ports.zipIdx.map (·.2)).map (Slot.input place) := by
    rw [inputSlots, List.map_map, List.map_map]
    rfl
  rw [slots, List.zipIdx_map_snd]
  exact (List.nodup_range' 1 Nat.one_pos).map fun j k same => (Slot.input.inj same).2

theorem tapSlotsBelow {body : Hierarchy} {definition i : Nat} {path : List String} {place : Place} :
    ∀ tap ∈ body.tapSlots definition path place i, ∃ inner j k, i ≤ j ∧ tap.slot = .input (inner ++ j :: place) k := by
  induction body generalizing definition i path place with
  | empty => exact nofun
  | primitive name p rest ih =>
    intro tap mem
    rcases List.mem_append.mp mem with own | later
    · obtain ⟨k, slot⟩ := inputSlotsBelow tap own
      exact ⟨[], i, k, Nat.le_refl i, slot⟩
    · obtain ⟨inner, j, k, le, slot⟩ := ih tap later
      exact ⟨inner, j, k, by omega, slot⟩
  | scope name child interface wires inner rest ihInner ih =>
    intro tap mem
    rcases List.mem_append.mp mem with own | behind
    · obtain ⟨k, slot⟩ := inputSlotsBelow tap own
      exact ⟨[], i, k, Nat.le_refl i, slot⟩
    · rcases List.mem_append.mp behind with inside | later
      · obtain ⟨deeper, j, k, -, slot⟩ := ihInner tap inside
        exact ⟨deeper ++ [j], i, k, Nat.le_refl i, by rw [slot, List.append_assoc]; rfl⟩
      · obtain ⟨inner, j, k, le, slot⟩ := ih tap later
        exact ⟨inner, j, k, by omega, slot⟩

theorem tapSlotsDistinct {body : Hierarchy} {definition i : Nat} {path : List String} {place : Place} :
    ((body.tapSlots definition path place i).map (·.slot)).Nodup := by
  -- what lies below one instance is apart from what lies below the later ones
  have apart : ∀ {definition i : Nat} {path : List String} {place : Place} {first : List TapSlot} {rest : Hierarchy},
      (∀ tap ∈ first, ∃ inner k, tap.slot = .input (inner ++ i :: place) k) → (first.map (·.slot)).Nodup →
      ((rest.tapSlots definition path place (i + 1)).map (·.slot)).Nodup →
      ((first ++ rest.tapSlots definition path place (i + 1)).map (·.slot)).Nodup := by
    intro definition i path place first rest below distinct distinct'
    rw [List.map_append, List.nodup_append]
    refine ⟨distinct, distinct', ?_⟩
    rintro slot mem _ mem' rfl
    obtain ⟨tap, member, rfl⟩ := List.mem_map.mp mem
    obtain ⟨tap', member', same⟩ := List.mem_map.mp mem'
    obtain ⟨inner, k, own⟩ := below tap member
    obtain ⟨inner', j, k', le, own'⟩ := tapSlotsBelow tap' member'
    have index := belowInj (Slot.input.inj (own'.symm.trans (same.trans own))).1
    omega
  induction body generalizing definition i path place with
  | empty => exact List.nodup_nil
  | primitive name p rest ih =>
    refine apart (fun tap mem => ?_) inputSlotsDistinct ih
    obtain ⟨k, slot⟩ := inputSlotsBelow tap mem
    exact ⟨[], k, slot⟩
  | scope name child interface wires inner rest ihInner ih =>
    rw [tapSlots, ← List.append_assoc]
    refine apart (fun tap mem => ?_) ?_ ih
    · rcases List.mem_append.mp mem with own | inside
      · obtain ⟨k, slot⟩ := inputSlotsBelow tap own
        exact ⟨[], k, slot⟩
      · obtain ⟨deeper, j, k, -, slot⟩ := tapSlotsBelow tap inside
        exact ⟨deeper ++ [j], k, by rw [slot, List.append_assoc]; rfl⟩
    · rw [List.map_append, List.nodup_append]
      refine ⟨inputSlotsDistinct, ihInner, ?_⟩
      rintro slot mem _ mem' rfl
      obtain ⟨tap, member, rfl⟩ := List.mem_map.mp mem
      obtain ⟨tap', member', same⟩ := List.mem_map.mp mem'
      obtain ⟨k, own⟩ := inputSlotsBelow tap member
      obtain ⟨deeper, j, k', -, own'⟩ := tapSlotsBelow tap' member'
      have lengths := congrArg List.length (Slot.input.inj (own'.symm.trans (same.trans own))).1
      simp only [List.length_append, List.length_cons] at lengths
      omega

end Hierarchy

namespace Design

variable {design : Design}

theorem tapsBelow {place : Place} {wires : List Wire} {body : Hierarchy}
    (found : design.scope? place = some (wires, body)) : ∃ definition,
      body.tapSlots definition (design.path place) place 0 ⊆ design.tapSlots := by
  induction place generalizing wires body with
  | nil =>
    cases found
    exact ⟨design.definition, fun _ mem => mem⟩
  | cons i place ih =>
    unfold scope? at found
    split at found
    · rename_i outerWires outer outerFound
      split at found
      · rename_i name child interface wires' inner here
        cases found
        obtain ⟨definition, below⟩ := ih outerFound
        have inside := @Hierarchy.tapsScope _ _ definition 0 _ _ (design.path place) place _ _ _ here
        have path := pathIn ((entryIn outerFound).trans here)
        rw [Nat.zero_add] at inside
        rw [path, Entry.name]
        exact ⟨child, fun tap mem => below (inside mem)⟩
      · cases found
    · cases found

theorem inputTapped {place : Place} {entry : Entry} (here : design.item? place = some entry) {k : Nat} {port : Port}
    (known : entry.interface.inputs[k]? = some port) : ∃ tap ∈ design.tapSlots,
      tap.path = design.path place ∧ tap.pin = port ∧ tap.slot = .input place k := by
  cases place with
  | nil => exact nomatch here
  | cons i place =>
    obtain ⟨wires, body, found, at'⟩ := itemScope here
    obtain ⟨definition, below⟩ := tapsBelow found
    have own := @Hierarchy.tapsEntry body definition 0 i k (design.path place) place entry port at' known
    rw [Nat.zero_add] at own
    exact ⟨_, below own, (pathIn here).symm, rfl, rfl⟩

theorem tapEntry {part whole : Hierarchy} {wires : List Wire} {definition i : Nat} {place : Place}
    (found : design.scope? place = some (wires, whole)) (same : ∀ j, part.get? j = whole.get? (i + j)) :
    ∀ tap ∈ part.tapSlots definition (design.path place) place i, ∃ inner k entry, tap.slot = .input inner k ∧
      tap.path = design.path inner ∧ design.item? inner = some entry ∧ entry.interface.inputs[k]? = some tap.pin := by
  have own : ∀ {i definition : Nat} {place : Place} {wires : List Wire} {whole : Hierarchy} {entry : Entry},
      design.scope? place = some (wires, whole) → whole.get? i = some entry →
      ∀ tap ∈ Hierarchy.inputSlots definition (design.path place ++ [entry.name]) (i :: place) entry.interface.inputs,
        ∃ inner k entry, tap.slot = .input inner k ∧ tap.path = design.path inner ∧ design.item? inner = some entry ∧
          entry.interface.inputs[k]? = some tap.pin := by
    intro i definition place wires whole entry found here tap mem
    obtain ⟨⟨port, k⟩, member, rfl⟩ := List.mem_map.mp mem
    have item := (entryIn found).trans here
    exact ⟨i :: place, k, entry, rfl, (pathIn item).symm, item, List.mk_mem_zipIdx_iff_getElem?.mp member⟩
  induction part generalizing definition i place wires whole with
  | empty => exact nofun
  | primitive name p rest ih =>
    intro tap mem
    have tail := Hierarchy.restAt fun j => same (j + 1)
    rcases List.mem_append.mp mem with first | later
    · exact own found (same 0).symm tap first
    · exact ih found tail tap later
  | scope name child interface wires' inner rest ihInner ih =>
    intro tap mem
    have here : whole.get? i = some (.scope name child interface wires' inner) := (same 0).symm
    have tail := Hierarchy.restAt fun j => same (j + 1)
    rcases List.mem_append.mp mem with first | behind
    · exact own found here tap first
    · rcases List.mem_append.mp behind with inside | later
      · have path := pathIn ((entryIn found).trans here)
        rw [Entry.name] at path
        rw [← path] at inside
        exact ihInner (scopeIn found here) (fun j => by rw [Nat.zero_add]) tap inside
      · exact ih found tail tap later

theorem slotEntry : ∀ tap ∈ design.tapSlots, ∃ place k entry, tap.slot = .input place k ∧ tap.path = design.path place ∧
    design.item? place = some entry ∧ entry.interface.inputs[k]? = some tap.pin :=
  @tapEntry design design.body design.body design.wires design.definition 0 [] rfl fun j => by rw [Nat.zero_add]

theorem tapSlot : ∀ tap ∈ design.tapSlots, design.slot? tap.slot = some ((tap.path, tap.pin.name), tap.pin.width) := by
  intro tap mem
  obtain ⟨place, k, entry, slot, path, item, known⟩ := slotEntry tap mem
  rw [← interfaceIn item] at known
  rw [slot, path]
  exact inputSlot known

end Design

end Taps

theorem Design.Flat.tapsFit {design : Design} {circuit : Circuit} {library : Library} {root : Nat} {graph : Graph}
    (of : design.Of circuit library root) (flat : design.Flat graph) : graph.TapsFit := by
  intro tap mem
  obtain ⟨k, here⟩ := List.mem_iff_getElem?.mp mem
  obtain ⟨slot, at', -, -, made⟩ := Result.forallAt flat.taps.flip here
  obtain ⟨same, known, width⟩ := Result.forallAt flat.tapWidths.flip here
  obtain rfl := Option.some.inj (at'.symm.trans known)
  rw [width]
  exact of.sourceWidth flat made (Design.tapSlot slot (List.mem_of_getElem? at'))

theorem Design.Flat.supplied {design : Design} {circuit : Circuit} {library : Library} {root : Nat} {graph : Graph}
    (of : design.Of circuit library root) (flat : design.Flat graph) : graph.Supplied :=
  Graph.supplied (flat.wired of) (flat.tapsFit of)

theorem Design.Of.tapsNamed {design : Design} {circuit : Circuit} {library : Library} {root : Nat}
    (of : design.Of circuit library root) (named : circuit.Named) :
    (design.tapSlots.map fun slot => (slot.path, slot.pin.name)).Nodup := by
  have distinct : (design.tapSlots.map (·.slot)).Nodup := Hierarchy.tapSlotsDistinct
  refine (distinct.of_map _).map_on fun slot mem other mem' same => ?_
  have known := Design.tapSlot slot mem
  have known' := Design.tapSlot other mem'
  simp only [same] at known
  exact List.inj_on_of_nodup_map distinct mem mem' (of.slotInj named known known')

namespace Design

def valueAt (design : Design) (inputs values : Nat → Nat) : Origin → Nat
  | .input k => inputs k
  | .primitive place => values (design.leaves.findIdx (·.place = place))

variable {design : Design}

theorem sourceMakes {slot : Slot} {source : Source} (ok : design.source design.leaves slot = .ok source) :
    ∃ origin, design.Makes slot origin ∧
      ∀ inputs values, source.value inputs values = design.valueAt inputs values origin := by
  obtain ⟨origin, found, ok⟩ := Result.okBind ok
  refine ⟨origin, originMakes found, fun inputs values => ?_⟩
  cases origin with
  | input k | primitive place =>
    cases ok
    rfl

theorem leafIndex {i : Nat} {leaf : Leaf} (here : design.leaves[i]? = some leaf) :
    design.leaves.findIdx (·.place = leaf.place) = i := by
  obtain ⟨-, name, entry⟩ := leavesEntry leaf (List.mem_of_getElem? here)
  obtain ⟨other, found, same⟩ := findLeaf entry
  have distinct : (design.leaves.map (·.place)).Nodup := Hierarchy.leavesDistinct
  exact Result.indexInj distinct found here same

theorem NodeOf.operandMakes {leaf : Leaf} {node : Node} (stands : design.NodeOf leaf node) {k : Nat}
    (inside : k < leaf.primitive.inputs.length) : ∃ origin, design.Makes (.input leaf.place k) origin ∧
      ∀ inputs values, node.operand inputs values k = design.valueAt inputs values origin := by
  obtain ⟨source, found, ok⟩ := Result.forallAt stands.inputs (List.getElem?_range inside)
  obtain ⟨origin, made, value⟩ := sourceMakes ok
  refine ⟨origin, made, fun inputs values => ?_⟩
  rw [Node.operand, List.getD_eq_getElem?_getD, found, Option.getD_some, value]

end Design

namespace Design.Flat

variable {design : Design} {circuit : Circuit} {library : Library} {root : Nat} {graph : Graph}
  (of : design.Of circuit library root) (flat : design.Flat graph) {inputs values : Nat → Nat}
include flat

theorem originShows {origin : Origin} {pin : List String × String} {width : Nat}
    (known : design.origin? origin = some (pin, width)) :
    circuit.Shows root graph inputs values pin (design.valueAt inputs values origin) := by
  cases origin with
  | input k =>
    obtain ⟨port, here, same⟩ := Option.map_eq_some_iff.mp known
    cases same
    exact .input (flat.inputs ▸ here)
  | primitive place =>
    simp only [origin?] at known
    split at known
    · rename_i name primitive item
      cases known
      obtain ⟨leaf, here, rfl⟩ := findLeaf item
      obtain ⟨node, found, stands⟩ := Result.forallAt flat.nodes here
      obtain ⟨path, name', entry⟩ := leavesEntry leaf (List.mem_of_getElem? here)
      have same : primitive = leaf.primitive := by
        rw [entry] at item
        cases item
        rfl
      rw [← path, ← stands.path, same, ← stands.primitive]
      exact .node found
    · cases known

include of

theorem makesShows {slot : Slot} {origin : Origin} (made : design.Makes slot origin) {pin : List String × String}
    {width : Nat} (known : design.slot? slot = some (pin, width)) :
    circuit.Shows root graph inputs values pin (design.valueAt inputs values origin) := by
  obtain ⟨source, originAt, joined⟩ := of.makesJoined made known
  exact (originShows flat originAt).along joined

theorem tapShows : ∀ tap ∈ graph.taps,
    circuit.Shows root graph inputs values (tap.path, tap.pin) (tap.source.value inputs values) := by
  intro tap mem
  obtain ⟨slot, member, path, pin, made⟩ := Result.forallMem flat.taps tap mem
  have known := tapSlot slot member
  obtain ⟨origin, makes, value⟩ := sourceMakes made
  rw [path, pin, value]
  exact makesShows of flat makes known

theorem inputMakes {place : Place} {entry : Entry} (here : design.item? place = some entry) {k : Nat} {port : Port}
    (known : entry.interface.inputs[k]? = some port) : ∃ origin, ∃ tap ∈ graph.taps,
      design.Makes (.input place k) origin ∧ tap.path = design.path place ∧ tap.pin = port.name ∧
        graph.width? tap.source = some port.width ∧
        ∀ inputs values, tap.source.value inputs values = design.valueAt inputs values origin := by
  obtain ⟨slot, member, path, pin, spot⟩ := inputTapped here known
  obtain ⟨tap, mem, path', pin', made⟩ := Result.forallMem flat.taps.flip slot member
  rw [← interfaceIn here] at known
  rw [spot] at made
  obtain ⟨origin, makes, value⟩ := sourceMakes made
  exact ⟨origin, tap, mem, makes, path'.trans path, by rw [pin', pin], of.sourceWidth flat made (inputSlot known), value⟩

omit of in
theorem outputMakes : ∀ k output, graph.outputs[k]? = some output → ∃ origin,
    design.interface.outputs[k]? = some output.1 ∧ design.Makes (.output [] k) origin ∧
      ∀ inputs values, output.2.value inputs values = design.valueAt inputs values origin := by
  intro k output here
  obtain ⟨⟨port, j⟩, member, same, made⟩ := Result.forallAt flat.outputs.flip here
  rw [List.getElem?_zipIdx, Nat.zero_add] at member
  obtain ⟨port', known, pair⟩ := Option.map_eq_some_iff.mp member
  cases pair
  obtain ⟨origin, makes, value⟩ := sourceMakes made
  rw [same]
  exact ⟨origin, known, makes, value⟩

theorem operandShows {node : Node} (mem : node ∈ graph.nodes) {k : Nat} (inside : k < node.primitive.inputs.length) :
    circuit.Shows root graph inputs values (node.path, (node.primitive.inputs.getD k default).1)
      (node.operand inputs values k) := by
  obtain ⟨leaf, member, stands⟩ := Result.forallMem flat.nodes node mem
  rw [stands.primitive] at inside
  obtain ⟨origin, made, value⟩ := stands.operandMakes inside
  have shown := @makesShows _ _ _ _ _ of flat inputs values _ _ made _ _ (leafSlot member inside)
  rw [value, stands.path, stands.primitive, List.getD_eq_getElem?_getD, List.getElem?_eq_getElem inside, Option.getD_some]
  exact shown

theorem outputShows {output : Port × Source} (mem : output ∈ graph.outputs) :
    circuit.Shows root graph inputs values ([], output.1.name) (output.2.value inputs values) := by
  obtain ⟨k, here⟩ := List.mem_iff_getElem?.mp mem
  obtain ⟨origin, known, made, value⟩ := flat.outputMakes k output here
  rw [value]
  exact makesShows of flat made (outputSlot known)

variable (named : circuit.Named)
include named

theorem showsIff {pin : List String × String} {n : Nat} : circuit.Shows root graph inputs values pin n ↔
    ∃ slot width origin, design.slot? slot = some (pin, width) ∧ design.Makes slot origin ∧
      design.valueAt inputs values origin = n := by
  constructor
  · intro shown
    induction shown with
    | @input k port here =>
      rw [flat.inputs] at here
      have known : design.slot? (.input [] k) = some (([], port.name), port.width) := inputSlot here
      exact ⟨_, _, .input k, known, .origin rfl, rfl⟩
    | @node i node here =>
      obtain ⟨leaf, at', stands⟩ := Result.forallAt flat.nodes.flip here
      obtain ⟨path, name, entry⟩ := leavesEntry leaf (List.mem_of_getElem? at')
      have known : design.origin? (.primitive leaf.place) =
          some ((node.path, node.primitive.output.1), node.primitive.width) := by
        simp only [origin?, entry]
        rw [stands.path, stands.primitive, path]
      obtain ⟨slot, slotAt, made⟩ := originSlot known
      refine ⟨slot, _, _, slotAt, made, ?_⟩
      rw [valueAt, leafIndex at']
    | net _ joined ih =>
      obtain ⟨slot, width, origin, known, made, same⟩ := ih
      obtain ⟨slot', width', known', made'⟩ := of.joinedMakes named joined known made
      exact ⟨slot', width', origin, known', made', same⟩
  · rintro ⟨slot, width, origin, known, made, rfl⟩
    exact makesShows of flat made known

theorem showsUnique {pin : List String × String} {n n' : Nat}
    (shown : circuit.Shows root graph inputs values pin n) (shown' : circuit.Shows root graph inputs values pin n') :
    n = n' := by
  obtain ⟨slot, width, origin, known, made, rfl⟩ := (showsIff of flat named).mp shown
  obtain ⟨slot', width', origin', known', made', rfl⟩ := (showsIff of flat named).mp shown'
  obtain rfl := of.slotInj named known known'
  rw [makesUnique made made']

end Design.Flat

end CircuitSim
