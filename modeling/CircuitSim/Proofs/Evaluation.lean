import CircuitSim.Flat.Graph
import CircuitSim.Proofs.Primitive
import CircuitSim.Proofs.Schedule

/-! The values in a graph. Under given inputs and state they are settled when every node shows what its operands
and its state say; the order of the graph makes one such assignment, and there is no other. -/
namespace CircuitSim

def Source.value (inputs values : Nat → Nat) : Source → Nat
  | .input k => inputs k
  | .node i => values i

/- Pin `k` of a node. -/
def Node.operand (node : Node) (inputs values : Nat → Nat) (k : Nat) : Nat :=
  (node.inputs.getD k default).value inputs values

/- The words of a node's state in a buffer. -/
def Node.words (data : Bytes) (node : Node) (k : Nat) : Nat := node.primitive.word data node.stateOffset k

theorem Node.wordsLt (data : Bytes) (node : Node) (k : Nat) : node.words data k < 2 ^ node.primitive.width :=
  data.fieldLt _ _

inductive Stacked : Nat → List Node → Nat → Prop
  | nil (start : Nat) : Stacked start [] start
  | cons {node : Node} {rest : List Node} {stop : Nat}
      (tail : Stacked (node.stateOffset + node.primitive.stateBytes) rest stop) :
      Stacked node.stateOffset (node :: rest) stop

namespace Stacked

variable {start stop : Nat} {nodes : List Node}

theorem le (stacked : Stacked start nodes stop) : start ≤ stop := by
  induction stacked with
  | nil => exact Nat.le_refl _
  | cons tail ih => omega

theorem inside (stacked : Stacked start nodes stop) :
    ∀ node ∈ nodes, start ≤ node.stateOffset ∧ node.stateOffset + node.primitive.stateBytes ≤ stop := by
  induction stacked with
  | nil => exact nofun
  | @cons node rest stop tail ih =>
    intro other mem
    rcases List.mem_cons.mp mem with rfl | later
    · exact ⟨Nat.le_refl _, tail.le⟩
    · obtain ⟨first, last⟩ := ih other later
      exact ⟨by omega, last⟩

theorem ordered (stacked : Stacked start nodes stop) :
    nodes.Pairwise fun a b => a.stateOffset + a.primitive.stateBytes ≤ b.stateOffset := by
  induction stacked with
  | nil => exact .nil
  | cons tail ih => exact .cons (fun other mem => (tail.inside other mem).1) ih

end Stacked

namespace Graph
open Schedule (makers InOrder)

def width? (graph : Graph) : Source → Option Nat
  | .input k => graph.inputs[k]?.map (·.width)
  | .node i => graph.nodes[i]?.map (·.primitive.width)

/- What flattening guarantees for any library: every pin is joined to a source of its own width, there is an order, and
slices of state lie end to end. -/
structure Wired (graph : Graph) : Prop where
  wired : ∀ node ∈ graph.nodes, node.inputs.map graph.width? = node.primitive.inputs.map (some ·.2)
  inputs : ∀ port ∈ graph.inputs, 0 < port.width ∧ port.width ≤ 128
  outputs : ∀ entry ∈ graph.outputs,
    graph.width? entry.2 = some entry.1.width ∧ 0 < entry.1.width ∧ entry.1.width ≤ 128
  complete : graph.order.Perm (List.range graph.nodes.length)
  ordered : InOrder (fun i => makers (graph.node i)) [] graph.order
  stacked : Stacked 0 graph.nodes graph.stateBytes

/- With a sound library, code can be written for the primitives. -/
structure WellFormed (graph : Graph) : Prop extends Wired graph where
  valid : ∀ node ∈ graph.nodes, node.primitive.Valid

def TapsFit (graph : Graph) : Prop := ∀ tap ∈ graph.taps, graph.width? tap.source = some tap.width

def Admits (graph : Graph) (inputs : Nat → Nat) : Prop :=
  ∀ k port, graph.inputs[k]? = some port → inputs k < 2 ^ port.width

/- Each node shows what its operands and the words of its state say. -/
def Settled (graph : Graph) (inputs : Nat → Nat) (words : Node → Nat → Nat) (values : Nat → Nat) : Prop :=
  ∀ i node, graph.nodes[i]? = some node → values i = node.primitive.result (node.operand inputs values) (words node)

structure Evaluates (graph : Graph) (inputs : Nat → Nat) (words : Node → Nat → Nat) (values : Nat → Nat) : Prop where
  settled : graph.Settled inputs words values
  unique : ∀ values', graph.Settled inputs words values' → ∀ i < graph.nodes.length, values' i = values i

def settle (graph : Graph) (inputs : Nat → Nat) (words : Node → Nat → Nat) (values : Nat → Nat) (i : Nat) :
    Nat → Nat :=
  let node := graph.node i
  fun j => if j = i then node.primitive.result (node.operand inputs values) (words node) else values j

def evaluate (graph : Graph) (inputs : Nat → Nat) (words : Node → Nat → Nat) : Nat → Nat :=
  graph.order.foldl (graph.settle inputs words) fun _ => 0

theorem nodeHere {graph : Graph} {i : Nat} (inside : i < graph.nodes.length) :
    graph.nodes[i]? = some (graph.node i) := by
  rw [Graph.node, List.getD_eq_getElem?_getD, List.getElem?_eq_getElem inside, Option.getD_some]

theorem nodeMem {graph : Graph} {i : Nat} (inside : i < graph.nodes.length) : graph.node i ∈ graph.nodes :=
  List.mem_of_getElem? (nodeHere inside)

theorem nodeAt {graph : Graph} {i : Nat} {node : Node} (here : graph.nodes[i]? = some node) :
    graph.node i = node := by
  rw [Graph.node, List.getD_eq_getElem?_getD, here, Option.getD_some]

section Args

variable {graph : Graph} {args : List Nat}
  (fit : List.Forall₂ (fun n (port : Port) => n < 2 ^ port.width) args graph.inputs)
include fit

theorem argAt {k : Nat} {port : Port} (here : graph.inputs[k]? = some port) :
    args[k]? = some (args.getD k 0) ∧ args.getD k 0 < 2 ^ port.width := by
  obtain ⟨n, found, small⟩ := Result.forallAt fit.flip here
  rw [List.getD_eq_getElem?_getD, found]
  exact ⟨rfl, small⟩

theorem argsAdmit : graph.Admits fun k => args.getD k 0 := fun _ _ here => (argAt fit here).2

theorem paramsGiven (more : List Value) (k : Nat) (port : Port) (here : graph.inputs[k]? = some port) :
    (args.map Value.number ++ more)[k]? = some (.number (args.getD k 0)) := by
  have found := (argAt fit here).1
  obtain ⟨inside, -⟩ := List.getElem?_eq_some_iff.mp found
  rw [List.getElem?_append_left (by simpa using inside), List.getElem?_map, found, Option.map_some]

theorem ownerGiven (owner : Value) (more : List Value) (j : Nat) :
    (args.map Value.number ++ owner :: more)[graph.inputs.length + j]? = (owner :: more)[j]? := by
  rw [← fit.length_eq, ← List.length_map Value.number, List.getElem?_append_right (Nat.le_add_right _ j),
    Nat.add_sub_cancel_left]

end Args

end Graph

theorem Primitive.resultCongr {primitive : Primitive} {word : Nat → Nat} {input input' : Nat → Nat}
    (same : ∀ k ∈ primitive.reads, input k = input' k) : primitive.result input word = primitive.result input' word := by
  cases primitive with
  | register | const => rfl
  | binary | not | compare | mux | mem =>
    simp only [reads, List.mem_cons, List.not_mem_nil, or_false, forall_eq_or_imp, forall_eq] at same
    simp only [result, same]

theorem Schedule.makersMem {node : Node} {k i : Nat} (read : k ∈ node.primitive.reads)
    (source : node.inputs[k]? = some (.node i)) : i ∈ makers node :=
  List.mem_filterMap.mpr ⟨k, read, by rw [source]⟩

namespace Graph
open Schedule (makers InOrder)

section Supplied

def Ready (graph : Graph) (done : List Nat) : Source → Prop
  | .input k => k < graph.inputs.length
  | .node i => i ∈ done

/- No source is asked for before it has its value: neither when a node is computed, in its turn, nor for what is stored
when all of them have been. -/
structure Supplied (graph : Graph) : Prop where
  nodes : ∀ i ∈ graph.order, i < graph.nodes.length
  reads : ∀ before i after, graph.order = before ++ i :: after → ∀ k ∈ (graph.node i).primitive.reads,
    ∃ source, (graph.node i).inputs[k]? = some source ∧ graph.Ready before source
  operands : ∀ node ∈ graph.nodes, ∀ source ∈ node.inputs, graph.Ready graph.order source
  outputs : ∀ output ∈ graph.outputs, graph.Ready graph.order output.2
  taps : ∀ tap ∈ graph.taps, graph.Ready graph.order tap.source

variable {graph : Graph} (wired : graph.Wired)
include wired

theorem orderMem {i : Nat} : i ∈ graph.order ↔ i < graph.nodes.length := by
  rw [wired.complete.mem_iff, List.mem_range]

theorem sourceAt {node : Node} (mem : node ∈ graph.nodes) {k : Nat} {pin : String × Nat}
    (here : node.primitive.inputs[k]? = some pin) :
    ∃ source, node.inputs[k]? = some source ∧ graph.width? source = some pin.2 := by
  have wires := congrArg (·[k]?) (wired.wired node mem)
  simp only [List.getElem?_map, here, Option.map_some] at wires
  cases found : node.inputs[k]? with
  | none => simp [found] at wires
  | some source =>
    rw [found] at wires
    exact ⟨source, rfl, Option.some.inj wires⟩

theorem pinAt {node : Node} (mem : node ∈ graph.nodes) {k : Nat} {source : Source}
    (here : node.inputs[k]? = some source) :
    ∃ pin, node.primitive.inputs[k]? = some pin ∧ graph.width? source = some pin.2 := by
  have wires := congrArg (·[k]?) (wired.wired node mem)
  simp only [List.getElem?_map, here, Option.map_some] at wires
  obtain ⟨pin, found, same⟩ := Option.map_eq_some_iff.mp wires.symm
  exact ⟨pin, found, same.symm⟩

theorem readyLast {source : Source} {width : Nat} (known : graph.width? source = some width) :
    graph.Ready graph.order source := by
  cases source with
  | input k =>
    obtain ⟨_, here, -⟩ := Option.map_eq_some_iff.mp known
    exact (List.getElem?_eq_some_iff.mp here).1
  | node i =>
    obtain ⟨_, here, -⟩ := Option.map_eq_some_iff.mp known
    exact (orderMem wired).mpr (List.getElem?_eq_some_iff.mp here).1

theorem readyAt {node : Node} {done : List Nat} (mem : node ∈ graph.nodes) (made : ∀ j ∈ makers node, j ∈ done)
    {k : Nat} (read : k ∈ node.primitive.reads) {pin : String × Nat} (here : node.primitive.inputs[k]? = some pin) :
    ∃ source, node.inputs[k]? = some source ∧ graph.width? source = some pin.2 ∧ graph.Ready done source := by
  obtain ⟨source, found, width⟩ := sourceAt wired mem here
  refine ⟨source, found, width, ?_⟩
  cases source with
  | input j => exact readyLast wired width
  | node j => exact made j (Schedule.makersMem read found)

theorem supplied (shown : graph.TapsFit) : graph.Supplied := by
  have nodes : ∀ i ∈ graph.order, i < graph.nodes.length := fun i mem => (orderMem wired).mp mem
  refine ⟨nodes, fun before i after split k read => ?_, fun node mem source used => ?_,
    fun output mem => readyLast wired (wired.outputs output mem).1, fun tap mem => readyLast wired (shown tap mem)⟩
  · have inside := nodes i (split ▸ List.mem_append_right before List.mem_cons_self)
    have pin := List.getElem?_eq_getElem ((graph.node i).primitive.reads_lt k read)
    have order := wired.ordered
    rw [split] at order
    have made := order.madeBefore
    rw [List.nil_append] at made
    obtain ⟨source, found, -, ready⟩ := readyAt wired (nodeMem inside) made read pin
    exact ⟨source, found, ready⟩
  · obtain ⟨k, here⟩ := List.mem_iff_getElem?.mp used
    obtain ⟨pin, -, width⟩ := pinAt wired mem here
    exact readyLast wired width

end Supplied

theorem widthFits {graph : Graph} (wellFormed : graph.WellFormed) {source : Source} {width : Nat}
    (known : graph.width? source = some width) : 0 < width ∧ width ≤ 128 := by
  cases source with
  | input k =>
    obtain ⟨port, here, rfl⟩ := Option.map_eq_some_iff.mp known
    exact wellFormed.inputs port (List.mem_of_getElem? here)
  | node i =>
    obtain ⟨node, here, rfl⟩ := Option.map_eq_some_iff.mp known
    have valid := wellFormed.valid node (List.mem_of_getElem? here)
    cases kind : node.primitive with
    | compare => simp [Primitive.width, Primitive.output]
    | register | not | mux =>
      rw [kind] at valid
      exact valid
    | binary op =>
      rw [kind] at valid
      cases op with
      | add | sub | mul | and | or | xor => exact valid
    | const | mem =>
      rw [kind] at valid
      exact ⟨valid.1, valid.2.1⟩

section Settled

variable {graph : Graph} {inputs : Nat → Nat} {words : Node → Nat → Nat}

theorem operandCongr {node : Node} {values values' : Nat → Nat}
    (same : ∀ j ∈ makers node, values j = values' j) :
    ∀ k ∈ node.primitive.reads, node.operand inputs values k = node.operand inputs values' k := by
  intro k read
  unfold Node.operand
  rw [List.getD_eq_getElem?_getD]
  cases source : node.inputs[k]? with
  | none => rfl
  | some source' =>
    cases source' with
    | input k => rfl
    | node i => exact same i (Schedule.makersMem read source)

def SettledAt (graph : Graph) (inputs : Nat → Nat) (words : Node → Nat → Nat) (values : Nat → Nat) (i : Nat) :
    Prop :=
  values i = (graph.node i).primitive.result ((graph.node i).operand inputs values) (words (graph.node i))

theorem settledCongr {values values' : Nat → Nat} {i : Nat} (own : values i = values' i)
    (same : ∀ j ∈ makers (graph.node i), values j = values' j) (settled : graph.SettledAt inputs words values i) :
    graph.SettledAt inputs words values' i := by
  unfold SettledAt at settled ⊢
  rw [← own, settled]
  exact Primitive.resultCongr (operandCongr same)

theorem foldSettled {done rest : List Nat} {values : Nat → Nat}
    (order : InOrder (fun i => makers (graph.node i)) done rest)
    (closed : ∀ i ∈ done, ∀ j ∈ makers (graph.node i), j ∈ done)
    (settled : ∀ i ∈ done, graph.SettledAt inputs words values i) :
    ∀ i ∈ done ++ rest, graph.SettledAt inputs words (rest.foldl (graph.settle inputs words) values) i := by
  induction order generalizing values with
  | nil done => simpa using settled
  | @cons done rest i fresh made behind ih =>
    have kept : ∀ j ∈ done, graph.settle inputs words values i j = values j := by
      intro j mem
      have other : j ≠ i := fun same => fresh (same ▸ mem)
      exact if_neg other
    have step := @ih (graph.settle inputs words values i)
    rw [List.append_assoc, List.singleton_append] at step
    apply step
    · intro j mem k needed
      rcases List.mem_append.mp mem with before | last
      · exact List.mem_append_left _ (closed j before k needed)
      · exact List.mem_append_left _ (made k (List.mem_singleton.mp last ▸ needed))
    · intro j mem
      rcases List.mem_append.mp mem with before | last
      · exact settledCongr (kept j before).symm (fun k needed => (kept k (closed j before k needed)).symm)
          (settled j before)
      · obtain rfl := List.mem_singleton.mp last
        have own : graph.settle inputs words values j j =
            (graph.node j).primitive.result ((graph.node j).operand inputs values) (words (graph.node j)) := if_pos rfl
        unfold SettledAt
        rw [own]
        exact Primitive.resultCongr (operandCongr fun k needed => (kept k (made k needed)).symm)

variable (wellFormed : graph.WellFormed)
include wellFormed

theorem settledIff {values : Nat → Nat} :
    graph.Settled inputs words values ↔ ∀ i ∈ graph.order, graph.SettledAt inputs words values i := by
  constructor
  · intro settled i mem
    have here := List.getElem?_eq_getElem ((orderMem wellFormed.toWired).mp mem)
    have own := settled i _ here
    rw [← nodeAt here] at own
    exact own
  · intro settled i node here
    obtain ⟨inside, -⟩ := List.getElem?_eq_some_iff.mp here
    have own := settled i ((orderMem wellFormed.toWired).mpr inside)
    unfold SettledAt at own
    rw [nodeAt here] at own
    exact own

theorem evaluateSettled (inputs : Nat → Nat) (words : Node → Nat → Nat) :
    graph.Settled inputs words (graph.evaluate inputs words) :=
  (settledIff wellFormed).mpr (foldSettled wellFormed.ordered nofun nofun)

theorem settledUnique {values values' : Nat → Nat} (settled : graph.Settled inputs words values)
    (settled' : graph.Settled inputs words values') : ∀ i < graph.nodes.length, values i = values' i := by
  -- along the order, with agreement on what is done as the invariant: makers are done before their readers
  have agree : ∀ done rest, InOrder (fun i => makers (graph.node i)) done rest →
      (∀ i ∈ done, values i = values' i) → rest ⊆ graph.order → ∀ i ∈ rest, values i = values' i := by
    intro done rest order
    induction order with
    | nil => exact fun _ _ => nofun
    | @cons done rest i fresh made behind ih =>
      intro before known
      have own := (settledIff wellFormed).mp settled i (known List.mem_cons_self)
      have own' := (settledIff wellFormed).mp settled' i (known List.mem_cons_self)
      have same : values i = values' i := by
        unfold SettledAt at own own'
        rw [own, own']
        exact Primitive.resultCongr (operandCongr fun j needed => before j (made j needed))
      intro j mem
      rcases List.mem_cons.mp mem with rfl | later
      · exact same
      · refine ih (fun k done => ?_) (fun k rest => known (List.mem_cons_of_mem i rest)) j later
        rcases List.mem_append.mp done with earlier | last
        · exact before k earlier
        · exact List.mem_singleton.mp last ▸ same
  intro i inside
  exact agree [] graph.order wellFormed.ordered nofun (fun _ mem => mem) i ((orderMem wellFormed.toWired).mpr inside)

theorem evaluates (inputs : Nat → Nat) (words : Node → Nat → Nat) :
    graph.Evaluates inputs words (graph.evaluate inputs words) :=
  ⟨evaluateSettled wellFormed inputs words, fun _ settled i inside =>
    settledUnique wellFormed settled (evaluateSettled wellFormed inputs words) i inside⟩

theorem operandFits {node : Node} (mem : node ∈ graph.nodes) (admits : graph.Admits inputs) {values : Nat → Nat}
    {ks : List Nat} (small : ∀ k ∈ ks, ∀ i other, node.inputs[k]? = some (.node i) →
      graph.nodes[i]? = some other → values i < 2 ^ other.primitive.width) :
    node.primitive.Fits (node.operand inputs values) ks := by
  intro k read pin here
  obtain ⟨source, found, width⟩ := sourceAt wellFormed.toWired mem here
  have operand : node.operand inputs values k = source.value inputs values := by
    rw [Node.operand, List.getD_eq_getElem?_getD, found, Option.getD_some]
  rw [operand]
  cases source with
  | input k =>
    obtain ⟨port, known, same⟩ := Option.map_eq_some_iff.mp width
    exact same ▸ admits k port known
  | node i =>
    obtain ⟨other, known, same⟩ := Option.map_eq_some_iff.mp width
    exact same ▸ small k read i other found known

variable (small : ∀ node ∈ graph.nodes, ∀ k, words node k < 2 ^ node.primitive.width)
include small

theorem settledLt {values : Nat → Nat} (settled : graph.Settled inputs words values)
    (admits : graph.Admits inputs) {i : Nat} {node : Node} (here : graph.nodes[i]? = some node) :
    values i < 2 ^ node.primitive.width := by
  have below : ∀ done rest, InOrder (fun i => makers (graph.node i)) done rest →
      (∀ i ∈ done, ∀ node, graph.nodes[i]? = some node → values i < 2 ^ node.primitive.width) →
      ∀ i ∈ rest, ∀ node, graph.nodes[i]? = some node → values i < 2 ^ node.primitive.width := by
    intro done rest order
    induction order with
    | nil => exact fun _ => nofun
    | @cons done rest i fresh made behind ih =>
      intro before
      have own : ∀ node, graph.nodes[i]? = some node → values i < 2 ^ node.primitive.width := by
        intro node here
        have mem := List.mem_of_getElem? here
        rw [settled i node here]
        refine Primitive.resultLt (wellFormed.valid node mem) ?_ (small node mem)
        apply operandFits wellFormed mem admits
        intro k read j other source known
        rw [nodeAt here] at made
        exact before j (made j (Schedule.makersMem read source)) other known
      intro j mem
      rcases List.mem_cons.mp mem with rfl | later
      · exact own
      · refine ih (fun k done => ?_) j later
        rcases List.mem_append.mp done with earlier | last
        · exact before k earlier
        · exact List.mem_singleton.mp last ▸ own
  obtain ⟨inside, -⟩ := List.getElem?_eq_some_iff.mp here
  exact below [] graph.order wellFormed.ordered nofun i ((orderMem wellFormed.toWired).mpr inside) node here

theorem settledFits {values : Nat → Nat} (settled : graph.Settled inputs words values)
    (admits : graph.Admits inputs) {node : Node} (mem : node ∈ graph.nodes) (ks : List Nat) :
    node.primitive.Fits (node.operand inputs values) ks :=
  operandFits wellFormed mem admits fun _ _ _ _ _ known => settledLt wellFormed small settled admits known

theorem sourceLt {values : Nat → Nat} (settled : graph.Settled inputs words values)
    (admits : graph.Admits inputs) {source : Source} {width : Nat} (known : graph.width? source = some width) :
    source.value inputs values < 2 ^ width := by
  cases source with
  | input k =>
    obtain ⟨port, here, same⟩ := Option.map_eq_some_iff.mp known
    exact same ▸ admits k port here
  | node i =>
    obtain ⟨node, here, same⟩ := Option.map_eq_some_iff.mp known
    exact same ▸ settledLt wellFormed small settled admits here

end Settled

end Graph

end CircuitSim
