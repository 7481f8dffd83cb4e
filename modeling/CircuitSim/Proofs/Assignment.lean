import CircuitSim.Proofs.Labelling

/-! The pins of a hierarchy have one assignment of numbers, the one that the flattened graph evaluates to. -/
namespace CircuitSim

theorem Circuit.Assigned.labelled {circuit : Circuit} {root : Nat} {staged : String → Nat}
    {words : List String → Nat → Nat} {pins : List String × String → Nat}
    (assigned : circuit.Assigned root staged words pins) :
    circuit.Labelled root (circuit.PrimitiveAt root) staged words pins :=
  ⟨assigned.inputs, assigned.nets, assigned.primitives⟩

namespace Design.Flat

variable {circuit : Circuit} {root : Nat} {design : Design} {graph : Graph} (of : design.Of circuit .builtin root)
  (flat : design.Flat graph)

include of flat in
theorem primitivesCovered : graph.Covers (circuit.PrimitiveAt root) := by
  refine ⟨fun node mem => of.nodePrimitive flat mem, fun path primitive within => ?_⟩
  obtain ⟨leaf, -, i, node, here, stands, rfl, rfl⟩ := of.primitiveNode flat within
  exact ⟨i, node, here, stands.path, stands.primitive⟩

section Pins

variable {staged : String → Nat} {words : List String → Nat → Nat} {pins : List String × String → Nat}
  (assigned : circuit.Assigned root staged words pins)
include of flat assigned

theorem shownPins {pin : List String × String} {n : Nat}
    (shown : circuit.Shows root graph (graph.inputPins staged) (graph.nodePins pins) pin n) : pins pin = n :=
  shownLabels of flat assigned.labelled shown

theorem pinsOperand {node : Node} (mem : node ∈ graph.nodes) {k : Nat} (inside : k < node.primitive.inputs.length) :
    node.primitive.taken pins node.path k = node.operand (graph.inputPins staged) (graph.nodePins pins) k :=
  labelsOperand of flat assigned.labelled mem inside

theorem pinsSettled :
    graph.Settled (graph.inputPins staged) (fun node => words node.path) (graph.nodePins pins) :=
  labelsSettled of flat (primitivesCovered of flat) assigned.labelled

end Pins

section Once

variable (named : circuit.Named) (staged : String → Nat) (words : List String → Nat → Nat)
include of flat named

theorem pinsExist : ∃ pins, circuit.Assigned root staged words pins := by
  obtain ⟨pins, labelled⟩ :=
    labelsExist (primitivesCovered of flat) of flat (flat.wellFormed of) named staged words
  exact ⟨pins, labelled.inputs, labelled.nets, labelled.primitives⟩

variable (children : ∀ path id, circuit.Within root path id → ∃ child, circuit.flatten .builtin id = .ok child)
include children

omit named in
theorem pinShows {inputs values : Nat → Nat} {pin : List String × String} (known : circuit.PinAt root pin) :
    ∃ n, circuit.Shows root graph inputs values pin n := by
  cases known with
  | @pin path primitive pin within mem =>
    obtain ⟨leaf, -, i, node, here, stands, rfl, rfl⟩ := of.primitiveNode flat within
    rw [← stands.path]
    rw [← stands.primitive] at mem
    rcases List.mem_append.mp mem with own | own
    · obtain ⟨named, member, rfl⟩ := List.mem_map.mp own
      obtain ⟨k, at'⟩ := List.mem_iff_getElem?.mp member
      obtain ⟨inside, -⟩ := List.getElem?_eq_some_iff.mp at'
      have shown := @operandShows _ _ _ _ _ of flat inputs values node (List.mem_of_getElem? here) k inside
      rw [List.getD_eq_getElem?_getD, at', Option.getD_some] at shown
      exact ⟨_, shown⟩
    · obtain rfl := List.mem_singleton.mp own
      exact ⟨_, .node here⟩
  | @port path id port within mem =>
    obtain ⟨child, flattened⟩ := children path id within
    obtain ⟨design', of', flat'⟩ := Circuit.flattenOf flattened
    obtain ⟨place, rfl, holds⟩ := of.holds Library.builtinPlaceless of' within
    have fed : ∀ k port, design'.interface.inputs[k]? = some port → ∃ origin, design.Makes (.input place k) origin := by
      intro k port here
      rw [← holds.interface] at here
      cases place with
      | nil => exact ⟨.input k, .origin rfl⟩
      | cons i place =>
        rcases presentScope holds.scope with none | ⟨entry, item⟩
        · exact nomatch none
        · rw [interfaceIn item] at here
          obtain ⟨origin, _, _, made, _⟩ := flat.inputMakes of item here
          exact ⟨origin, made⟩
    -- the definition flattens on its own, so its ports have origins inside; they come from somewhere outside too
    have inside : ∀ (slot : Slot) (origin : Origin), design'.slot? slot = some (([], port.name), port.width) →
        design'.Makes slot origin → ∃ n, circuit.Shows root graph inputs values (design.path place, port.name) n := by
      intro slot origin known made
      obtain ⟨origin', comes⟩ := Design.Holds.comesInside of' fed known made
      have outside := holds.slotUnder slot
      simp only [known, Option.map_some, List.append_nil] at outside
      exact ⟨_, makesShows of flat (holds.makesUnder made comes) outside⟩
    have mem : port ∈ design'.interface.inputs ++ design'.interface.outputs := by
      rw [of'.interface]
      exact mem
    rcases List.mem_append.mp mem with own | own
    · obtain ⟨k, here⟩ := List.mem_iff_getElem?.mp own
      exact inside (.input [] k) (.input k) (inputSlot here) (.origin rfl)
    · obtain ⟨k, here⟩ := List.mem_iff_getElem?.mp own
      obtain ⟨output, found, rfl⟩ := flat'.outputAt here
      obtain ⟨origin, known, made, -⟩ := flat'.outputMakes k output found
      exact inside (.output [] k) origin (outputSlot known) made

omit named in
theorem pinsUnique {staged : String → Nat} {words : List String → Nat → Nat} {pins pins' : List String × String → Nat}
    (assigned : circuit.Assigned root staged words pins) (assigned' : circuit.Assigned root staged words pins')
    {pin : List String × String} (known : circuit.PinAt root pin) : pins' pin = pins pin := by
  have settled := pinsSettled of flat assigned
  have settled' := pinsSettled of flat assigned'
  have same := Graph.settledUnique (flat.wellFormed of) settled settled'
  obtain ⟨n, shown⟩ := @pinShows _ _ _ _ of flat children (graph.inputPins staged) (graph.nodePins pins) pin known
  rw [shownPins of flat assigned shown, shownPins of flat assigned' (shown.congr same)]

end Once

end Design.Flat

end CircuitSim
