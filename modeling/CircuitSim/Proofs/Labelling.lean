import CircuitSim.Proofs.Instance
import CircuitSim.Proofs.Reference

/-! Numbers at the pins of a hierarchy that agree with its nets and its primitives, whatever library these are built
from. The flattened graph evaluates to them, so there is one choice of them. -/
namespace CircuitSim

/- Numbers at the pins that staged inputs and words of state allow, when `primitiveAt` tells the primitives at their
paths. -/
structure Circuit.Labelled (circuit : Circuit) (root : Nat) (primitiveAt : List String → Primitive → Prop)
    (staged : String → Nat) (words : List String → Nat → Nat) (pins : List String × String → Nat) : Prop where
  inputs : ∀ port ∈ (circuit.definition root).inputs, pins ([], port.name) = staged port.name
  nets : ∀ source sink, circuit.Joined root source sink → pins sink = pins source
  primitives : ∀ path primitive, primitiveAt path primitive →
    pins (path, primitive.output.1) = primitive.result (primitive.taken pins path) (words path)

structure Graph.Covers (graph : Graph) (primitiveAt : List String → Primitive → Prop) : Prop where
  nodes : ∀ node ∈ graph.nodes, primitiveAt node.path node.primitive
  only : ∀ path primitive, primitiveAt path primitive → ∃ (i : Nat) (node : Node), graph.nodes[i]? = some node ∧
    node.path = path ∧ node.primitive = primitive

def Graph.nodePins (graph : Graph) (pins : List String × String → Nat) (i : Nat) : Nat :=
  pins ((graph.node i).path, (graph.node i).primitive.output.1)

def Graph.inputPins (graph : Graph) (staged : String → Nat) (k : Nat) : Nat :=
  (graph.inputs[k]?.map fun port => staged port.name).getD 0

theorem Circuit.Shows.congr {circuit : Circuit} {root : Nat} {graph : Graph} {inputs values values' : Nat → Nat}
    (same : ∀ i < graph.nodes.length, values i = values' i) {pin : List String × String} {n : Nat}
    (shown : circuit.Shows root graph inputs values pin n) : circuit.Shows root graph inputs values' pin n := by
  induction shown with
  | input here => exact .input here
  | node here =>
    obtain ⟨inside, -⟩ := List.getElem?_eq_some_iff.mp here
    rw [same _ inside]
    exact .node here
  | net _ joined ih => exact ih.net joined

namespace Design.Flat

variable {circuit : Circuit} {library : Library} {root : Nat} {design : Design} {graph : Graph}
  (of : design.Of circuit library root) (flat : design.Flat graph)

include of flat in
theorem inputsNamed (named : circuit.Named) : (graph.inputs.map (·.name)).Nodup := by
  have all := named.ports root
  rw [List.map_append] at all
  rw [flat.inputs, of.interface]
  exact (List.nodup_append.mp all).1

section Shows

variable {inputs values : Nat → Nat}
include of flat

theorem shownBack (named : circuit.Named) {source sink : List String × String} {n : Nat}
    (joined : circuit.Joined root source sink) (shown : circuit.Shows root graph inputs values sink n) :
    circuit.Shows root graph inputs values source n := by
  obtain ⟨slot, width, known, driverAt⟩ := of.joinedDriver joined
  obtain ⟨slot', width', origin, known', made, rfl⟩ := (showsIff of flat named).mp shown
  obtain rfl := of.slotInj named known' known
  cases made with
  | origin drives =>
    rw [drives] at driverAt
    exact originShows flat driverAt
  | along drives rest =>
    rw [drives] at driverAt
    exact makesShows of flat rest driverAt
  | output here =>
    rw [outputUndriven here] at driverAt
    exact nomatch driverAt

end Shows

section Labels

variable {primitiveAt : List String → Primitive → Prop} (covers : graph.Covers primitiveAt) {staged : String → Nat}
  {words : List String → Nat → Nat} {pins : List String × String → Nat}
  (labelled : circuit.Labelled root primitiveAt staged words pins)
include of flat labelled

theorem shownLabels {pin : List String × String} {n : Nat}
    (shown : circuit.Shows root graph (graph.inputPins staged) (graph.nodePins pins) pin n) : pins pin = n := by
  induction shown with
  | @input k port here =>
    have mem : port ∈ (circuit.definition root).inputs := by
      have own := List.mem_of_getElem? here
      rw [flat.inputs, of.interface] at own
      exact own
    rw [labelled.inputs port mem, Graph.inputPins, here, Option.map_some, Option.getD_some]
  | @node i node here => rw [Graph.nodePins, Graph.nodeAt here]
  | net _ joined ih => rw [labelled.nets _ _ joined, ih]

theorem labelsOperand {node : Node} (mem : node ∈ graph.nodes) {k : Nat} (inside : k < node.primitive.inputs.length) :
    node.primitive.taken pins node.path k = node.operand (graph.inputPins staged) (graph.nodePins pins) k :=
  shownLabels of flat labelled (operandShows of flat mem inside)

include covers

theorem labelsSettled :
    graph.Settled (graph.inputPins staged) (fun node => words node.path) (graph.nodePins pins) := by
  intro i node here
  have mem := List.mem_of_getElem? here
  rw [Graph.nodePins, Graph.nodeAt here, labelled.primitives _ _ (covers.nodes node mem)]
  exact Primitive.resultCongr fun k read => labelsOperand of flat labelled mem (node.primitive.reads_lt k read)

end Labels

theorem labelsExist {primitiveAt : List String → Primitive → Prop} (covers : graph.Covers primitiveAt)
    (of : design.Of circuit library root) (flat : design.Flat graph) (wellFormed : graph.WellFormed)
    (named : circuit.Named) (staged : String → Nat) (words : List String → Nat → Nat) :
    ∃ pins, circuit.Labelled root primitiveAt staged words pins := by
  classical
  have settled := Graph.evaluateSettled wellFormed (graph.inputPins staged) fun node => words node.path
  generalize graph.evaluate (graph.inputPins staged) (fun node => words node.path) = values at settled
  let pins pin :=
    if shown : ∃ n, circuit.Shows root graph (graph.inputPins staged) values pin n then shown.choose else 0
  have same : ∀ {pin n}, circuit.Shows root graph (graph.inputPins staged) values pin n → pins pin = n := by
    intro pin n shown
    have any : ∃ n, circuit.Shows root graph (graph.inputPins staged) values pin n := ⟨n, shown⟩
    have chosen : pins pin = any.choose := dif_pos any
    rw [chosen]
    exact showsUnique of flat named any.choose_spec shown
  -- a pin without a signal has the number 0 at both ends of its nets
  refine ⟨pins, fun port mem => ?_, fun source sink joined => ?_, fun path primitive within => ?_⟩
  · have own : port ∈ graph.inputs := by
      rw [flat.inputs, of.interface]
      exact mem
    obtain ⟨k, here⟩ := List.mem_iff_getElem?.mp own
    rw [same (.input here), Graph.inputPins, here, Option.map_some, Option.getD_some]
  · by_cases shown : ∃ n, circuit.Shows root graph (graph.inputPins staged) values source n
    · obtain ⟨n, shown⟩ := shown
      rw [same shown, same (shown.net joined)]
    · have none : ¬∃ n, circuit.Shows root graph (graph.inputPins staged) values sink n := fun ⟨n, shown'⟩ =>
        shown ⟨n, shownBack of flat named joined shown'⟩
      have zero : pins sink = 0 := dif_neg none
      have zero' : pins source = 0 := dif_neg shown
      rw [zero, zero']
  · obtain ⟨i, node, here, rfl, rfl⟩ := covers.only path primitive within
    have mem := List.mem_of_getElem? here
    rw [same (.node here), settled i node here]
    exact Primitive.resultCongr fun k read =>
      (same (operandShows of flat mem (node.primitive.reads_lt k read))).symm

end Design.Flat

end CircuitSim
