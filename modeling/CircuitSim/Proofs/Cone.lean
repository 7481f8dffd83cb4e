import CircuitSim.Proofs.Compute
import CircuitSim.Proofs.Copying

/-! What a signal depends on: the inputs and the state that go into it within a step. Whatever else differs between two
calls, an output shows the same if they agree on its cone, and so does a node's next state if they agree on the
cones of its inputs. Main statement: `coneDetermines`. -/
namespace CircuitSim

def Node.slice (data : Bytes) (node : Node) : Bytes := readAligned data node.stateOffset node.primitive.stateBytes

namespace Graph

/-- The signals that go into a source within a step: itself, and with a node what the inputs that it reads show. -/
inductive Cone (graph : Graph) (root : Source) : Source → Prop
  | root : Cone graph root root
  | read {i k : Nat} {node : Node} {source : Source} (inside : Cone graph root (.node i))
      (here : graph.nodes[i]? = some node) (reads : k ∈ node.primitive.reads) (joined : node.inputs[k]? = some source) :
      Cone graph root source

structure Agree (graph : Graph) (root : Source) (args args' : List Nat) (data data' : Bytes) : Prop where
  inputs : ∀ k, graph.Cone root (.input k) → args[k]? = args'[k]?
  state : ∀ i node, graph.Cone root (.node i) → graph.nodes[i]? = some node → node.primitive.isStateful = true →
    node.slice data = node.slice data'

/- A signal passes through one node after the other, into a pin and out behind it. -/
inductive Route (graph : Graph) : Source → List (Node × Nat) → Source → Prop
  | here (source : Source) : Route graph source [] source
  | through {i k : Nat} {node : Node} {first last : Source} {pins : List (Node × Nat)}
      (here : graph.nodes[i]? = some node) (joined : node.inputs[k]? = some first)
      (behind : Route graph (.node i) pins last) : Route graph first ((node, k) :: pins) last

/- Pins whose signal is kept for the next step: the input of a register, and the write port of a memory. -/
def Held (pin : Node × Nat) : Prop :=
  match pin.1.primitive with
  | .register _ => True
  | .mem .. => pin.2 < 3
  | _ => False

/-- Calls of a compute with these inputs on these states store one number for output `k`, wherever the state and the
outputs are. -/
def ComputesAlike (graph : Graph) (args args' : List Nat) (data data' : Bytes) (k : Nat) : Prop :=
  ∃ code, graph.computeBody.code = .ok code ∧ ∀ (context context' : Context) (memory memory' : Memory) (block block' : Nat)
    (outs outs' : List Nat), memory[block]? = some data → memory'[block']? = some data' →
    Outs graph.outputs memory block outs → Outs graph.outputs memory' block' outs' →
    ∃ left left', code.run context (.ofParams (args.map .number ++ .address block 0 :: outs.map (.address · 0))) memory =
        .ok left ∧
      code.run context' (.ofParams (args'.map .number ++ .address block' 0 :: outs'.map (.address · 0))) memory' =
        .ok left' ∧
      ∀ output out out', graph.outputs[k]? = some output → outs[k]? = some out → outs'[k]? = some out' →
        ∃ new new' : Bytes, left[out]? = some new ∧ left'[out']? = some new' ∧
          new.field 0 (8 * Width.containerBytes output.1.width) =
            new'.field 0 (8 * Width.containerBytes output.1.width)

/-- Calls of an update with these inputs on these states leave a node the same state. -/
def UpdatesAlike (graph : Graph) (args args' : List Nat) (data data' : Bytes) (node : Node) : Prop :=
  ∃ code, graph.updateBody.code = .ok code ∧ ∀ (context context' : Context) (memory memory' : Memory) (block block' : Nat),
    memory[block]? = some data → memory'[block']? = some data' →
    ∃ new new' : Bytes, code.run context (.ofParams (args.map .number ++ [.address block 0])) memory =
        .ok (memory.setIfInBounds block new) ∧
      code.run context' (.ofParams (args'.map .number ++ [.address block' 0])) memory' =
        .ok (memory'.setIfInBounds block' new') ∧ node.slice new = node.slice new'

end Graph

section Slices

variable {data data' : Bytes}

theorem Node.sliceIff {node : Node} (inside : node.stateOffset + node.primitive.stateBytes ≤ data.size)
    (inside' : node.stateOffset + node.primitive.stateBytes ≤ data'.size) : node.slice data = node.slice data' ↔
      data.field (8 * node.stateOffset) (8 * node.primitive.stateBytes) =
        data'.field (8 * node.stateOffset) (8 * node.primitive.stateBytes) := by
  have size : ∀ {data : Bytes}, node.stateOffset + node.primitive.stateBytes ≤ data.size →
      (node.slice data).size = node.primitive.stateBytes := by
    intro data inside
    simp only [slice, readAligned, Array.size_extract]
    omega
  constructor
  · intro same
    refine Bytes.fieldCongr fun i bound => ?_
    rw [← readAlignedBit bound inside, ← readAlignedBit bound inside']
    exact congrArg (·.bit i) same
  · intro same
    refine Bytes.eqOfBits ((size inside).trans (size inside').symm) fun i bound => ?_
    rw [size inside] at bound
    have bits := congrArg (·.testBit i) same
    simp only [Bytes.fieldTestBit, bound, decide_true, Bool.true_and] at bits
    exact (readAlignedBit bound inside).trans (bits.trans (readAlignedBit bound inside').symm)

variable {primitive : Primitive} {offset : Nat}

theorem Primitive.wordSlice (valid : primitive.Valid)
    (same : data.field (8 * offset) (8 * primitive.stateBytes) = data'.field (8 * offset) (8 * primitive.stateBytes))
    {k : Nat} (known : k < primitive.cells) : primitive.word data offset k = primitive.word data' offset k := by
  have inside := wordInside valid known
  rw [word, word, ← data.fieldShift inside, ← data'.fieldShift inside, same]

theorem Primitive.changeCongr {input input' : Nat → Nat} (same : ∀ k < primitive.inputs.length, input k = input' k) :
    primitive.change offset input = primitive.change offset input' := by
  cases primitive with
  | register width => simp only [change, same 0 (by simp [inputs])]
  | mem width depth =>
    simp only [change, same 0 (by simp [inputs]), same 1 (by simp [inputs]), same 2 (by simp [inputs])]
  | const | binary | not | compare | mux => rfl

theorem Primitive.advanceSlice (valid : primitive.Valid) (inside : offset + primitive.stateBytes ≤ data.size)
    (inside' : offset + primitive.stateBytes ≤ data'.size)
    (same : data.field (8 * offset) (8 * primitive.stateBytes) = data'.field (8 * offset) (8 * primitive.stateBytes))
    {input input' : Nat → Nat} (given : ∀ k < primitive.inputs.length, input k = input' k) :
    (primitive.advance data offset input).field (8 * offset) (8 * primitive.stateBytes) =
      (primitive.advance data' offset input').field (8 * offset) (8 * primitive.stateBytes) := by
  have bits : ∀ i < 8 * primitive.stateBytes, data.bit (8 * offset + i) = data'.bit (8 * offset + i) := by
    intro i bound
    have bit := congrArg (·.testBit i) same
    simpa only [Bytes.fieldTestBit, bound, decide_true, Bool.true_and] using bit
  unfold advance
  rw [← changeCongr given]
  split
  · rename_i c changes
    have bounds := changeInside valid changes
    refine Bytes.fieldCongr fun i bound => ?_
    rw [Bytes.putBitWithin (by omega), Bytes.putBitWithin (by omega), bits i bound]
  · exact same

end Slices

theorem Primitive.cellsStateful {primitive : Primitive} {k : Nat} (known : k < primitive.cells) :
    primitive.isStateful = true := by
  cases primitive with
  | register | mem => rfl
  | const | binary | not | compare | mux => cases known

namespace Graph
open Schedule (makers InOrder)

variable {graph : Graph} {args args' : List Nat} {data data' : Bytes}

theorem Cone.route {root source : Source} (cone : graph.Cone root source) :
    ∃ pins, graph.Route source pins root ∧ ∀ pin ∈ pins, ¬Held pin := by
  induction cone with
  | root => exact ⟨[], .here root, nofun⟩
  | @read i k node source _ here reads joined ih =>
    obtain ⟨pins, behind, passes⟩ := ih
    refine ⟨(node, k) :: pins, .through here joined behind, fun pin mem => ?_⟩
    rcases List.mem_cons.mp mem with rfl | later
    · unfold Held
      cases kind : node.primitive with
      | register width =>
        rw [kind] at reads
        cases reads
      | mem width depth =>
        rw [kind] at reads
        obtain rfl := List.mem_singleton.mp reads
        exact Nat.lt_irrefl 3
      | const | binary | not | compare | mux => exact id
    · exact passes pin later

namespace WellFormed

variable (wellFormed : graph.WellFormed) (sized : graph.stateBytes < data.size) (sized' : graph.stateBytes < data'.size)
  {values values' : Nat → Nat}
  (settled : graph.Settled (fun k => args.getD k 0) (Node.words data) values)
  (settled' : graph.Settled (fun k => args'.getD k 0) (Node.words data') values')
include wellFormed sized sized' settled settled'

theorem coneNodes {root : Source} (agree : graph.Agree root args args' data data') {done rest : List Nat}
    (order : InOrder (fun i => makers (graph.node i)) done rest) (known : ∀ i ∈ rest, i < graph.nodes.length)
    (before : ∀ i ∈ done, graph.Cone root (.node i) → values i = values' i) :
    ∀ i ∈ rest, graph.Cone root (.node i) → values i = values' i := by
  induction order with
  | nil => exact nofun
  | @cons done rest i fresh made behind ih =>
    have own : graph.Cone root (.node i) → values i = values' i := by
      intro cone
      obtain ⟨node, here⟩ : ∃ node, graph.nodes[i]? = some node :=
        ⟨_, List.getElem?_eq_getElem (known i List.mem_cons_self)⟩
      have mem := List.mem_of_getElem? here
      rw [settled i node here, settled' i node here]
      have operands : ∀ k ∈ node.primitive.reads, node.operand (fun k => args.getD k 0) values k =
          node.operand (fun k => args'.getD k 0) values' k := by
        intro k reads
        obtain ⟨source, joined, -⟩ :=
          sourceAt wellFormed.toWired mem (List.getElem?_eq_getElem (node.primitive.reads_lt k reads))
        rw [Node.operand, Node.operand, List.getD_eq_getElem?_getD, joined, Option.getD_some]
        have inside := cone.read here reads joined
        cases source with
        | input j =>
          simp only [Source.value, List.getD_eq_getElem?_getD, agree.inputs j inside]
        | node j =>
          rw [nodeAt here] at made
          exact before j (made j (Schedule.makersMem reads joined)) inside
      rw [Primitive.resultCongr operands]
      refine Primitive.resultWords (wellFormed.valid node mem) fun k cell => ?_
      have slices := agree.state i node cone here (Primitive.cellsStateful cell)
      rw [Node.sliceIff (wellFormed.inside sized node mem) (wellFormed.inside sized' node mem)] at slices
      exact Primitive.wordSlice (wellFormed.valid node mem) slices cell
    intro j mem
    rcases List.mem_cons.mp mem with rfl | later
    · exact own
    · refine ih (fun k rest => known k (List.mem_cons_of_mem i rest)) (fun k earlier => ?_) j later
      rcases List.mem_append.mp earlier with first | last
      · exact before k first
      · exact List.mem_singleton.mp last ▸ own

theorem coneValue {root : Source} (agree : graph.Agree root args args' data data')
    (known : (graph.width? root).isSome) :
    root.value (fun k => args.getD k 0) values = root.value (fun k => args'.getD k 0) values' := by
  cases root with
  | input k => simp only [Source.value, List.getD_eq_getElem?_getD, agree.inputs k .root]
  | node i =>
    obtain ⟨_, width⟩ := Option.isSome_iff_exists.mp known
    obtain ⟨node, here, -⟩ := Option.map_eq_some_iff.mp width
    have mem := (orderMem wellFormed.toWired).mpr (List.getElem?_eq_some_iff.mp here).1
    exact coneNodes wellFormed sized sized' settled settled' agree wellFormed.ordered
      (fun j listed => (orderMem wellFormed.toWired).mp listed) nofun i mem .root

omit settled settled' in
theorem computesAlike (fit : List.Forall₂ (fun n (port : Port) => n < 2 ^ port.width) args graph.inputs)
    (fit' : List.Forall₂ (fun n (port : Port) => n < 2 ^ port.width) args' graph.inputs) {k : Nat}
    (agree : ∀ output, graph.outputs[k]? = some output → graph.Agree output.2 args args' data data') :
    graph.ComputesAlike args args' data data' k := by
  have settled := evaluateSettled wellFormed (fun k => args.getD k 0) (Node.words data)
  have settled' := evaluateSettled wellFormed (fun k => args'.getD k 0) (Node.words data')
  obtain ⟨code, emitted, runs⟩ := wellFormed.computes fit sized settled
  obtain ⟨_, emitted', runs'⟩ := wellFormed.computes fit' sized' settled'
  obtain rfl := Except.ok.inj (emitted.symm.trans emitted')
  refine ⟨code, emitted, fun context context' memory memory' block block' outs outs' here here' room room' => ?_⟩
  obtain ⟨left, ran, stored⟩ := runs context memory block outs here room
  obtain ⟨left', ran', stored'⟩ := runs' context' memory' block' outs' here' room'
  refine ⟨left, left', ran, ran', fun output out out' known at' at'' => ?_⟩
  obtain ⟨-, new, -, found, -, shows⟩ := stored.stored k output out known at'
  obtain ⟨-, new', -, found', -, shows'⟩ := stored'.stored k output out' known at''
  refine ⟨new, new', found, found', shows.trans (Eq.trans ?_ shows'.symm)⟩
  refine coneValue wellFormed sized sized' settled settled' (agree output known) ?_
  rw [(wellFormed.outputs output (List.mem_of_getElem? known)).1]
  rfl

omit settled settled' in
theorem updatesAlike (fit : List.Forall₂ (fun n (port : Port) => n < 2 ^ port.width) args graph.inputs)
    (fit' : List.Forall₂ (fun n (port : Port) => n < 2 ^ port.width) args' graph.inputs) {node : Node}
    (mem : node ∈ graph.nodes) (own : node.slice data = node.slice data')
    (agree : ∀ source ∈ node.inputs, graph.Agree source args args' data data') :
    graph.UpdatesAlike args args' data data' node := by
  have settled := evaluateSettled wellFormed (fun k => args.getD k 0) (Node.words data)
  have settled' := evaluateSettled wellFormed (fun k => args'.getD k 0) (Node.words data')
  obtain ⟨code, emitted, runs⟩ := wellFormed.updates fit sized settled
  obtain ⟨_, emitted', runs'⟩ := wellFormed.updates fit' sized' settled'
  obtain rfl := Except.ok.inj (emitted.symm.trans emitted')
  refine ⟨code, emitted, fun context context' memory memory' block block' here here' =>
    ⟨_, _, runs context memory block here, runs' context' memory' block' here', ?_⟩⟩
  have inside := wellFormed.inside sized node mem
  have inside' := wellFormed.inside sized' node mem
  have operands : ∀ k < node.primitive.inputs.length,
      node.operand (fun k => args.getD k 0) (graph.evaluate (fun k => args.getD k 0) (Node.words data)) k =
        node.operand (fun k => args'.getD k 0) (graph.evaluate (fun k => args'.getD k 0) (Node.words data')) k := by
    intro k pin
    obtain ⟨source, joined, width⟩ := sourceAt wellFormed.toWired mem (List.getElem?_eq_getElem pin)
    rw [Node.operand, Node.operand, List.getD_eq_getElem?_getD, joined, Option.getD_some]
    exact coneValue wellFormed sized sized' settled settled' (agree source (List.mem_of_getElem? joined)) (width ▸ rfl)
  rw [Node.sliceIff inside inside'] at own
  rw [Node.sliceIff (by rw [advanceSize]; exact inside) (by rw [advanceSize]; exact inside'),
    advanceOwn wellFormed.valid wellFormed.apart (wellFormed.inside sized) mem (Nat.le_refl _) (by omega),
    advanceOwn wellFormed.valid wellFormed.apart (wellFormed.inside sized') mem (Nat.le_refl _) (by omega)]
  exact Primitive.advanceSlice (wellFormed.valid node mem) inside inside' own operands

end WellFormed

end Graph

/-- An output shows the same under two inputs and two states that agree on its cone, and a stateful node's next state
is the same if its own state and the cones of its inputs are. An input that reaches an output through registers and
the write ports of memories only can change without the output. -/
theorem coneDetermines (circuit : Circuit) (library : Library) (sound : library.Sound) (id : Nat) (graph : Graph)
    (flat : circuit.flatten library id = .ok graph) (args args' : List Nat)
    (fit : List.Forall₂ (fun n (port : Port) => n < 2 ^ port.width) args graph.inputs)
    (fit' : List.Forall₂ (fun n (port : Port) => n < 2 ^ port.width) args' graph.inputs) (data data' : Bytes)
    (sized : graph.stateBytes < data.size) (sized' : graph.stateBytes < data'.size) :
    (∀ k output, graph.outputs[k]? = some output → graph.Agree output.2 args args' data data' →
      graph.ComputesAlike args args' data data' k) ∧
    (∀ node ∈ graph.nodes, node.primitive.isStateful = true → node.slice data = node.slice data' →
      (∀ source ∈ node.inputs, graph.Agree source args args' data data') →
      graph.UpdatesAlike args args' data data' node) ∧
    ∀ k output, graph.outputs[k]? = some output → (∀ node ∈ graph.nodes, node.slice data = node.slice data') →
      (∀ i, args[i]? = args'[i]? ∨
        ∀ pins, graph.Route (.input i) pins output.2 → ∃ pin ∈ pins, Graph.Held pin) →
      graph.ComputesAlike args args' data data' k := by
  obtain ⟨design, of, flattened⟩ := Circuit.flattenOf flat
  have wellFormed := flattened.soundWellFormed sound of
  refine ⟨fun k output known agree => ?_, fun node mem _ own agree => ?_, fun k output known states reached => ?_⟩
  · refine wellFormed.computesAlike sized sized' fit fit' fun other known' => ?_
    obtain rfl := Option.some.inj (known.symm.trans known')
    exact agree
  · exact wellFormed.updatesAlike sized sized' fit fit' mem own agree
  · refine wellFormed.computesAlike sized sized' fit fit' fun other known' => ?_
    obtain rfl := Option.some.inj (known.symm.trans known')
    refine ⟨fun i cone => ?_, fun i node _ here _ => states node (List.mem_of_getElem? here)⟩
    obtain ⟨pins, route, passes⟩ := cone.route
    refine (reached i).resolve_right fun held => ?_
    obtain ⟨pin, mem, kept⟩ := held pins route
    exact passes pin mem kept

def delayed : Circuit := ⟨[{
  name := "delayed"
  inputs := [⟨"kept", 4⟩, ⟨"added", 4⟩]
  outputs := [⟨"sum", 4⟩]
  instances := [⟨"held", .primitive "register" [("width", 4)]⟩, ⟨"add", .primitive "add" [("width", 4)]⟩]
  nets := [⟨.own "kept", [.of "held" "in"]⟩, ⟨.of "held" "out", [.of "add" "lhs"]⟩,
    ⟨.own "added", [.of "add" "rhs"]⟩, ⟨.of "add" "sum", [.own "sum"]⟩] }], none⟩

theorem delayedDetermined : ∃ graph, delayed.flatten .builtin 0 = .ok graph ∧
    graph.ComputesAlike [1, 2] [9, 2] (5 :: List.replicate 16 0).toArray (5 :: List.replicate 16 255).toArray 0 := by
  cases flat : delayed.flatten .builtin 0 with
  | error fault => exact nomatch flat
  | ok graph =>
    have known := Except.ok.inj flat.symm
    subst known
    have fits : ∀ a < 2 ^ 4, List.Forall₂ (fun n (port : Port) => n < 2 ^ port.width) [a, 2]
        [⟨"kept", 4⟩, ⟨"added", 4⟩] := by
      intro a small
      exact .cons small (.cons (by decide) .nil)
    obtain ⟨shown, -⟩ := coneDetermines delayed .builtin Library.builtinSound 0 _ flat [1, 2] [9, 2]
      (fits 1 (by decide)) (fits 9 (by decide)) (5 :: List.replicate 16 0).toArray (5 :: List.replicate 16 255).toArray
      (by decide) (by decide)
    refine ⟨_, rfl, shown 0 _ rfl ⟨fun k cone => ?_, fun i node _ here _ => ?_⟩⟩
    · generalize same : Source.input k = source at cone
      have listed : source ∈ [Source.node 1, .node 0, .input 1] := by
        clear same
        induction cone with
        | root => exact List.mem_cons_self
        | read _ here reads joined ih =>
          simp only [List.mem_cons, Source.node.injEq, reduceCtorEq, List.not_mem_nil, or_false] at ih
          rcases ih with rfl | rfl
          · cases here
            simp only [Primitive.reads, List.mem_cons, List.not_mem_nil, or_false] at reads
            rcases reads with rfl | rfl
            · cases joined
              decide
            · cases joined
              decide
          · cases here
            cases reads
      subst same
      simp only [List.mem_cons, reduceCtorEq, Source.input.injEq, List.not_mem_nil, or_false, false_or] at listed
      rw [listed]
      rfl
    · obtain _ | _ | i := i
      · cases here
        decide
      · cases here
        decide
      · cases here

end CircuitSim
