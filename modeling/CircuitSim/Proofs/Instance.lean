import CircuitSim.Proofs.Compute
import CircuitSim.Proofs.Inline

/-! The graph of a definition inside the graph of another: the same nodes one after the other, on a slice of the
state. With the values that come in through its ports it settles to the same values, and an update does the
same to its slice. -/
namespace CircuitSim

structure Node.Under (path : List String) (base : Nat) (node whole : Node) : Prop where
  path : whole.path = path ++ node.path
  primitive : whole.primitive = node.primitive
  offset : whole.stateOffset = base + node.stateOffset

/- The nodes of an inner graph are counted from `first` on, and their state starts at byte `base`. -/
structure Graph.Inlines (outer inner : Graph) (path : List String) (first base : Nat) : Prop where
  nodes : ∀ j node, inner.nodes[j]? = some node → ∃ whole, outer.nodes[first + j]? = some whole ∧
    Node.Under path base node whole
  state : base + inner.stateBytes ≤ outer.stateBytes

theorem Stacked.offsetAt {start stop i : Nat} {nodes : List Node} {node : Node} (stacked : Stacked start nodes stop)
    (here : nodes[i]? = some node) :
    node.stateOffset = start + ((nodes.take i).map (·.primitive.stateBytes)).sum := by
  induction stacked generalizing i with
  | nil => exact nomatch here
  | @cons first rest stop tail ih =>
    cases i with
    | zero =>
      cases here
      rfl
    | succ i =>
      rw [ih here, List.take_succ_cons, List.map_cons, List.sum_cons, Nat.add_assoc]

theorem Stacked.covers {start stop byte : Nat} {nodes : List Node} (stacked : Stacked start nodes stop)
    (first : start ≤ byte) (last : byte < stop) :
    ∃ node ∈ nodes, node.stateOffset ≤ byte ∧ byte < node.stateOffset + node.primitive.stateBytes := by
  induction stacked with
  | nil => omega
  | @cons node rest stop tail ih =>
    by_cases own : byte < node.stateOffset + node.primitive.stateBytes
    · exact ⟨node, List.mem_cons_self, first, own⟩
    · obtain ⟨other, mem, inside⟩ := ih (by omega) last
      exact ⟨other, List.mem_cons_of_mem node mem, inside⟩

namespace Design

theorem stateBytesSame {r : Leaf → Leaf → Prop} (same : ∀ a b, r a b → b.primitive = a.primitive) {xs ys : List Leaf}
    (all : List.Forall₂ r xs ys) : stateBytes xs = stateBytes ys := by
  induction all with
  | nil => rfl
  | cons holds rest ih =>
    simp only [stateBytes, List.map_cons, List.sum_cons] at ih ⊢
    rw [same _ _ holds, ih]

theorem stateBytesAppend (xs ys : List Leaf) : stateBytes (xs ++ ys) = stateBytes xs + stateBytes ys := by
  simp only [stateBytes, List.map_append, List.sum_append]

variable {design : Design} {graph : Graph} (flat : design.Flat graph)
include flat

theorem Flat.offsetAt {i : Nat} {node : Node} (here : graph.nodes[i]? = some node) :
    node.stateOffset = Design.stateBytes (design.leaves.take i) := by
  have bytes : ∀ {leaves nodes}, List.Forall₂ design.NodeOf leaves nodes →
      (nodes.map (·.primitive.stateBytes)).sum = Design.stateBytes leaves := by
    intro leaves nodes all
    induction all with
    | nil => rfl
    | cons stands rest ih =>
      simp only [Design.stateBytes, List.map_cons, List.sum_cons] at ih ⊢
      rw [stands.primitive, ih]
  rw [flat.stacked.offsetAt here, Nat.zero_add, bytes (List.forall₂_take i flat.nodes)]

end Design

namespace Design.Holds

variable {outer inner : Design} {place : Place} (holds : outer.Holds inner place) {whole part : Graph}
  (flat : outer.Flat whole) (flat' : inner.Flat part)
include holds flat flat'

theorem inlines : ∃ first base, whole.Inlines part (outer.path place) first base ∧
    ∀ under name primitive, inner.item? under = some (.primitive name primitive) →
      outer.leaves.findIdx (·.place = under ++ place) = first + inner.leaves.findIdx (·.place = under) := by
  obtain ⟨before, middle, behind, split, all⟩ := holds.leavesInside
  have inside : ∀ j leaf, inner.leaves[j]? = some leaf → ∃ leaf', outer.leaves[before.length + j]? = some leaf' ∧
      Hierarchy.LeafUnder (outer.path place) place leaf leaf' := by
    intro j leaf here
    obtain ⟨leaf', here', under⟩ := Result.forallAt all here
    obtain ⟨bound, -⟩ := List.getElem?_eq_some_iff.mp here'
    refine ⟨leaf', ?_, under⟩
    rw [split, List.append_assoc, List.getElem?_append_right (Nat.le_add_right _ _), Nat.add_sub_cancel_left,
      List.getElem?_append_left bound, here']
  have bytes : ∀ {xs ys}, List.Forall₂ (Hierarchy.LeafUnder (outer.path place) place) xs ys →
      stateBytes xs = stateBytes ys := stateBytesSame fun _ _ under => under.primitive
  refine ⟨before.length, stateBytes before, ⟨fun j node here => ?_, ?_⟩, fun under name primitive item => ?_⟩
  · obtain ⟨leaf, at', stands⟩ := Result.forallAt flat'.nodes.flip here
    obtain ⟨leaf', at'', under⟩ := inside j leaf at'
    obtain ⟨node', here', stands'⟩ := Result.forallAt flat.nodes at''
    refine ⟨node', here', ?_, ?_, ?_⟩
    · rw [stands'.path, under.path, stands.path]
    · rw [stands'.primitive, under.primitive, stands.primitive]
    · obtain ⟨bound, -⟩ := List.getElem?_eq_some_iff.mp at'
      have short : j ≤ middle.length := by
        rw [← all.length_eq]
        omega
      have taken : outer.leaves.take (before.length + j) = before ++ middle.take j := by
        rw [split, List.append_assoc, List.take_length_add_append, List.take_append_of_le_length short]
      rw [flat.offsetAt here', taken, stateBytesAppend, flat'.offsetAt here, bytes (List.forall₂_take j all)]
  · rw [flat.stateBytes, flat'.stateBytes, split, stateBytesAppend, stateBytesAppend, bytes all]
    omega
  · obtain ⟨leaf, here, same⟩ := findLeaf item
    obtain ⟨leaf', here', below⟩ := inside _ leaf here
    rw [← same, ← below.place, leafIndex here', same]

end Design.Holds

def Graph.fed (graph : Graph) (path : List String) (ports : List Port) (inputs values : Nat → Nat) : List Nat :=
  ports.map fun port =>
    ((graph.taps.find? fun tap => tap.path = path ∧ tap.pin = port.name).map (·.source.value inputs values)).getD 0

structure Design.Fed (outer inner : Design) (place : Place) (inputs values : Nat → Nat) (first : Nat)
    (fed : Nat → Nat) : Prop where
  comes : ∀ k port, inner.interface.inputs[k]? = some port → ∃ origin, outer.Makes (.input place k) origin
  value : ∀ k port origin, inner.interface.inputs[k]? = some port → outer.Makes (.input place k) origin →
    outer.valueAt inputs values origin = fed k
  index : ∀ under name primitive, inner.item? under = some (.primitive name primitive) →
    outer.leaves.findIdx (·.place = under ++ place) = first + inner.leaves.findIdx (·.place = under)

namespace Design.Holds

variable {circuit : Circuit} {root id : Nat} {outer inner : Design} {place : Place} (holds : outer.Holds inner place)
  (of : outer.Of circuit .builtin root) (of' : inner.Of circuit .builtin id) (named : circuit.Named)
  {whole part : Graph} (flat : outer.Flat whole) (flat' : inner.Flat part)

include of' in
theorem comesInside
    (comes : ∀ k port, inner.interface.inputs[k]? = some port → ∃ origin, outer.Makes (.input place k) origin)
    {slot : Slot} {pin : (List String × String) × Nat} {origin : Origin} (known : inner.slot? slot = some pin)
    (made : inner.Makes slot origin) : ∃ origin', outer.Comes place origin origin' := by
  cases origin with
  | primitive under => exact ⟨_, .primitive under⟩
  | input k =>
    obtain ⟨source, originAt, -⟩ := of'.makesJoined made known
    obtain ⟨port, here, -⟩ := Option.map_eq_some_iff.mp originAt
    obtain ⟨origin', made'⟩ := comes k port here
    exact ⟨origin', .input made'⟩

section Fed

variable {i : Nat} {inputs values : Nat → Nat} {first base : Nat}
include of flat

theorem fedAt (holds : outer.Holds inner (i :: place)) (named : circuit.Named) {k : Nat} {port : Port}
    (known : inner.interface.inputs[k]? = some port) : ∃ origin, ∃ source, outer.Makes (.input (i :: place) k) origin ∧
      whole.width? source = some port.width ∧
      (whole.fed (outer.path (i :: place)) inner.interface.inputs inputs values)[k]? =
        some (source.value inputs values) ∧
      source.value inputs values = outer.valueAt inputs values origin := by
  rcases presentScope holds.scope with none | ⟨entry, item⟩
  · exact nomatch none
  · have interface : entry.interface = inner.interface := (interfaceIn item).symm.trans holds.interface
    rw [← interface] at known ⊢
    obtain ⟨origin, tap, mem, makes, path, pin, width, value⟩ := flat.inputMakes of item known
    cases found : whole.taps.find? fun tap => tap.path = outer.path (i :: place) ∧ tap.pin = port.name with
    | none =>
      have missed := List.find?_eq_none.mp found tap mem
      exact absurd (decide_eq_true ⟨path, pin⟩) missed
    | some other =>
      have same : other.path = outer.path (i :: place) ∧ other.pin = port.name := by
        simpa using List.find?_some found
      have shown := @Flat.tapShows _ _ _ _ _ of flat inputs values other (List.mem_of_find?_eq_some found)
      have shown' := @Flat.tapShows _ _ _ _ _ of flat inputs values tap mem
      rw [same.1, same.2] at shown
      rw [path, pin] at shown'
      refine ⟨origin, tap.source, makes, width, ?_, value inputs values⟩
      rw [Graph.fed, List.getElem?_map, known, Option.map_some, found, Option.map_some, Option.getD_some,
        Flat.showsUnique of flat named shown shown']

end Fed

section Values

variable {inputs values given : Nat → Nat} {first base : Nat} (fed : outer.Fed inner place inputs values first given)
include of' fed

theorem valueInside {slot : Slot} {pin : (List String × String) × Nat} {origin origin' : Origin}
    (known : inner.slot? slot = some pin) (made : inner.Makes slot origin) (comes : outer.Comes place origin origin') :
    outer.valueAt inputs values origin' = inner.valueAt given (fun j => values (first + j)) origin := by
  cases comes with
  | primitive under =>
    obtain ⟨name, primitive, item⟩ := makesPrimitive made
    simp only [valueAt, fed.index under name primitive item]
  | @input k _ made' =>
    obtain ⟨source, originAt, -⟩ := of'.makesJoined made known
    obtain ⟨port, here, -⟩ := Option.map_eq_some_iff.mp originAt
    exact fed.value k port origin' here made'

include holds

theorem slotValue {slot : Slot} {pin : (List String × String) × Nat} {origin origin' : Origin}
    (known : inner.slot? slot = some pin) (made : inner.Makes slot origin)
    (made' : outer.Makes (slot.under place) origin') :
    outer.valueAt inputs values origin' = inner.valueAt given (fun j => values (first + j)) origin := by
  obtain ⟨other, own, comes⟩ := holds.makesInside made'
  obtain rfl := makesUnique made own
  exact valueInside of' fed known made comes

include flat flat'

theorem operandInside {j : Nat} {node whole' : Node} (here : part.nodes[j]? = some node)
    (here' : whole.nodes[first + j]? = some whole') {k : Nat} (bound : k < node.primitive.inputs.length) :
    whole'.operand inputs values k = node.operand given (fun j => values (first + j)) k := by
  obtain ⟨leaf, at', stands⟩ := Result.forallAt flat'.nodes.flip here
  obtain ⟨leaf', at'', stands'⟩ := Result.forallAt flat.nodes.flip here'
  obtain ⟨-, name, item⟩ := leavesEntry leaf (List.mem_of_getElem? at')
  have item' : outer.item? (leaf.place ++ place) = some (.primitive name leaf.primitive) := holds.itemInside item
  obtain ⟨leaf'', found, same⟩ := findLeaf item'
  rw [fed.index leaf.place name leaf.primitive item, leafIndex at'] at found
  obtain rfl := Option.some.inj (at''.symm.trans found)
  obtain ⟨-, name', item''⟩ := leavesEntry leaf' (List.mem_of_getElem? at'')
  have kind : leaf'.primitive = leaf.primitive := by
    rw [same, item'] at item''
    exact (Entry.primitive.inj (Option.some.inj item'')).2.symm
  rw [stands.primitive] at bound
  obtain ⟨origin, made, value⟩ := stands.operandMakes bound
  obtain ⟨origin', made', value'⟩ := stands'.operandMakes (kind ▸ bound)
  rw [same] at made'
  rw [value, value']
  exact holds.slotValue of' fed (leafSlot (List.mem_of_getElem? at') bound) made made'

theorem settledInside (inlines : whole.Inlines part (outer.path place) first base) {words words' : Node → Nat → Nat}
    (settled : whole.Settled inputs words values)
    (same : ∀ node whole', node ∈ part.nodes → Node.Under (outer.path place) base node whole' →
      ∀ k < node.primitive.cells, words whole' k = words' node k) :
    part.Settled given words' fun j => values (first + j) := by
  intro j node here
  have mem := List.mem_of_getElem? here
  obtain ⟨whole', here', under⟩ := inlines.nodes j node here
  have valid : node.primitive.Valid := (flat'.wellFormed of').valid node mem
  have own := settled (first + j) whole' here'
  rw [under.primitive] at own
  refine own.trans ((Primitive.resultWords valid (same node whole' mem under)).trans (Primitive.resultCongr ?_))
  intro k read
  exact holds.operandInside of' flat flat' fed here here' (node.primitive.reads_lt k read)

include of named

theorem showsInside {below : List String} {pin : String} {n : Nat} :
    circuit.Shows root whole inputs values (outer.path place ++ below, pin) n ↔
      circuit.Shows id part given (fun j => values (first + j)) (below, pin) n := by
  rw [Flat.showsIff of flat named, Flat.showsIff of' flat' named]
  constructor
  · rintro ⟨slot, width, origin', known, made', rfl⟩
    obtain ⟨inside, rfl, known'⟩ := holds.slotInside of named known
    obtain ⟨origin, made, -⟩ := holds.makesInside made'
    exact ⟨inside, width, origin, known', made, (holds.slotValue of' fed known' made made').symm⟩
  · rintro ⟨slot, width, origin, known, made, rfl⟩
    obtain ⟨origin', comes⟩ := comesInside of' fed.comes known made
    refine ⟨slot.under place, width, origin', ?_, holds.makesUnder made comes, valueInside of' fed known made comes⟩
    rw [holds.slotUnder, known, Option.map_some]

end Values

end Design.Holds

end CircuitSim
