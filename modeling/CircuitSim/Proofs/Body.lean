import CircuitSim.Proofs.Emission

/-! The code of a graph computes the settled values, and its accesses are those of the nodes, one node after the
other. An update leaves every slice advanced by the values that the state on entry settles. -/
namespace CircuitSim

inductive Segments (made : Node → Access → Prop) : List Node → List Access → Prop
  | nil : Segments made [] []
  | cons {node : Node} {own : List Access} {nodes : List Node} {rest : List Access}
      (part : ∀ access ∈ own, made node access) (behind : Segments made nodes rest) :
      Segments made (node :: nodes) (own ++ rest)

theorem Segments.append {made : Node → Access → Prop} {nodes nodes' : List Node} {first second : List Access}
    (before : Segments made nodes first) (behind : Segments made nodes' second) :
    Segments made (nodes ++ nodes') (first ++ second) := by
  induction before with
  | nil => exact behind
  | cons part rest ih =>
    rw [List.append_assoc]
    exact .cons part ih

namespace Emit

section Traces

variable {α β : Type} {context : Context} {made : Node → Access → Prop} {frame : Frame} {memory : Memory}

def Traces (context : Context) (made : Node → Access → Prop) (nodes : List Node) (e : Emit α) (frame : Frame)
    (memory : Memory) (post : α → Frame → Memory → Prop) : Prop :=
  ∃ result reached, Runs context e frame memory result reached ∧ Segments made nodes reached.touched ∧
    post result reached.frame reached.memory

theorem Traces.one {node : Node} {e : Emit α} {post : α → Frame → Memory → Prop}
    (meets : Meets context (made node) e frame memory post) : Traces context made [node] e frame memory post := by
  obtain ⟨result, reached, runs, safe, holds⟩ := meets
  have whole := Segments.cons safe Segments.nil
  rw [List.append_nil] at whole
  exact ⟨result, reached, runs, whole, holds⟩

theorem Traces.none {e : Emit α} {post : α → Frame → Memory → Prop}
    (meets : Meets context (fun _ => False) e frame memory post) : Traces context made [] e frame memory post := by
  obtain ⟨result, reached, runs, safe, holds⟩ := meets
  have empty : reached.touched = [] := List.eq_nil_iff_forall_not_mem.mpr safe
  exact ⟨result, reached, runs, empty ▸ .nil, holds⟩

theorem Traces.bind {nodes nodes' : List Node} {e : Emit α} {next : α → Emit β}
    {mid : α → Frame → Memory → Prop} {post : β → Frame → Memory → Prop}
    (first : Traces context made nodes e frame memory mid)
    (rest : ∀ a frame' memory', frame.Grows frame' → mid a frame' memory' →
      Traces context made nodes' (next a) frame' memory' post) :
    Traces context made (nodes ++ nodes') (e >>= next) frame memory post := by
  obtain ⟨a, reached, runs, parts, holds⟩ := first
  obtain ⟨b, reached', runs', parts', holds'⟩ := rest a reached.frame reached.memory runs.grows holds
  exact ⟨b, _, runs.bind runs', parts.append parts', holds'⟩

theorem Traces.meets {nodes : List Node} {e : Emit α} {post : α → Frame → Memory → Prop}
    (traces : Traces context made nodes e frame memory post) :
    Meets context (fun _ => True) e frame memory post := by
  obtain ⟨a, reached, runs, -, holds⟩ := traces
  exact ⟨a, reached, runs, fun _ _ => trivial, holds⟩

theorem mapGives {allowed : Access → Prop} {xs : List α} {e : α → Emit Ref} {value : α → Value}
    (each : ∀ x ∈ xs, ∀ frame', frame.Grows frame' → Gives context allowed (e x) frame' memory (value x)) :
    Meets context allowed (xs.mapM e) frame memory fun refs frame' memory' =>
      memory' = memory ∧ List.Forall₂ (fun x ref => frame'.Holds ref (value x)) xs refs := by
  induction xs generalizing frame with
  | nil => exact Meets.pure ⟨rfl, .nil⟩
  | cons x xs ih =>
    rw [List.mapM_cons]
    apply Gives.bind (each x List.mem_cons_self frame (.refl frame))
    intro ref frame₁ grows₁ held
    apply Meets.bind (ih fun y mem frame' grows =>
      each y (List.mem_cons_of_mem x mem) frame' (grows₁.trans grows))
    rintro refs frame₂ _ grows₂ ⟨rfl, rest⟩
    exact Meets.pure ⟨rfl, .cons (grows₂.holds held) rest⟩

end Traces

end Emit

def Node.Made (block : Nat) (node : Node) (access : Access) : Prop :=
  node.primitive.isStateful = true ∧
    access.Within block node.stateOffset (node.stateOffset + node.primitive.stateBytes + 1)

namespace Graph
open Emit
open Schedule (makers InOrder)

def prologue (graph : Graph) : Emit (Signals × Ref) := do
  let inputs ← graph.params
  let state ← Emit.param graph.inputs.length
  let signals ← graph.signals inputs state
  return (signals, state)

theorem prologueBind {α : Type} (graph : Graph) (next : Signals → Ref → Emit α) :
    (do
      let inputs ← graph.params
      let state ← Emit.param graph.inputs.length
      let signals ← graph.signals inputs state
      next signals state) = graph.prologue >>= fun made => next made.1 made.2 := by
  simp only [prologue, bindAssoc, pureBind]

def Sourced (frame : Frame) (signals : Signals) (source : Source) (n : Nat) : Prop :=
  ∃ ref, signals.get? source = some ref ∧ frame.Holds ref (.number n)

/- The references that a body has for inputs and for the nodes done so far. -/
structure Carries (graph : Graph) (inputs values : Nat → Nat) (frame : Frame) (signals : Signals)
    (done : List Nat) : Prop where
  inputs : ∀ k port, graph.inputs[k]? = some port → Sourced frame signals (.input k) (inputs k)
  nodes : ∀ i ∈ done, Sourced frame signals (.node i) (values i)
  size : signals.nodes.size = graph.nodes.length

section Signals

variable {graph : Graph} {inputs values : Nat → Nat} {context : Context} {frame : Frame} {memory : Memory}
  {signals : Signals} {done : List Nat} {state : Ref} {block : Nat} {data : Bytes}

theorem Sourced.grow {frame' : Frame} {source : Source} {n : Nat} (sourced : Sourced frame signals source n)
    (grows : frame.Grows frame') : Sourced frame' signals source n :=
  sourced.imp fun _ both => ⟨both.1, grows.holds both.2⟩

theorem Carries.grow {frame' : Frame} (carries : graph.Carries inputs values frame signals done)
    (grows : frame.Grows frame') : graph.Carries inputs values frame' signals done :=
  ⟨fun k port here => (carries.inputs k port here).grow grows, fun i mem => (carries.nodes i mem).grow grows,
    carries.size⟩

theorem Carries.set {i : Nat} {ref : Ref} (carries : graph.Carries inputs values frame signals done)
    (inside : i < graph.nodes.length) (fresh : i ∉ done) (held : frame.Holds ref (.number (values i))) :
    graph.Carries inputs values frame (signals.set i ref) (done ++ [i]) := by
  have size := carries.size
  refine ⟨carries.inputs, fun j mem => ?_, Signals.sizeSet.trans size⟩
  rcases List.mem_append.mp mem with before | last
  · have other : Source.node j ≠ .node i := fun same => fresh (Source.node.inj same ▸ before)
    rw [Sourced, Signals.getOther other]
    exact carries.nodes j before
  · obtain rfl := List.mem_singleton.mp last
    exact ⟨ref, Signals.getOwn (size ▸ inside), held⟩

variable (wellFormed : graph.WellFormed) (settled : graph.Settled inputs (Node.words data) values)
  (admits : graph.Admits inputs) (sized : graph.stateBytes < data.size)

theorem paramsMeet (given : ∀ k port, graph.inputs[k]? = some port → frame.params[k]? = some (Value.number (inputs k))) :
    Meets context (fun _ => False) graph.params frame memory fun refs frame' memory' => memory' = memory ∧
      ∀ k port, graph.inputs[k]? = some port → ∃ ref, refs[k]? = some ref ∧ frame'.Holds ref (.number (inputs k)) := by
  have each : ∀ k ∈ List.range graph.inputs.length, ∀ frame', frame.Grows frame' →
      Gives context (fun _ => False) (Emit.param k) frame' memory (.number (inputs k)) := by
    intro k mem frame' grows
    have here := List.getElem?_eq_getElem (List.mem_range.mp mem)
    exact paramGives (grows.params ▸ given k _ here)
  apply (mapGives each).mono
  rintro refs frame' _ grows ⟨rfl, held⟩
  refine ⟨rfl, fun k port here => ?_⟩
  obtain ⟨inside, -⟩ := List.getElem?_eq_some_iff.mp here
  exact Result.forallAt held (List.getElem?_range inside)

theorem Carries.source {source : Source} {width : Nat} (carries : graph.Carries inputs values frame signals done)
    (known : graph.width? source = some width) (ready : graph.Ready done source) :
    Sourced frame signals source (source.value inputs values) := by
  cases source with
  | input k =>
    obtain ⟨port, here, -⟩ := Option.map_eq_some_iff.mp known
    exact carries.inputs k port here
  | node i => exact carries.nodes i ready

theorem sliceFits {node : Node} (stacked : Stacked 0 graph.nodes graph.stateBytes) (mem : node ∈ graph.nodes)
    (sized : graph.stateBytes < data.size) : node.stateOffset + node.primitive.stateBytes + 1 ≤ data.size := by
  have inside := (stacked.inside node mem).2
  omega

include wellFormed settled admits sized

theorem computeNodeMeets (here : memory[block]? = some data) {i : Nat} (inside : i < graph.nodes.length)
    (fresh : i ∉ done) (made : ∀ j ∈ makers (graph.node i), j ∈ done)
    (carries : graph.Carries inputs values frame signals done) (points : frame.Holds state (.address block 0)) :
    Meets context ((graph.node i).Made block) (graph.computeNode state signals i) frame memory
      fun signals' frame' memory' => memory' = memory ∧ graph.Carries inputs values frame' signals' (done ++ [i]) := by
  have known := nodeHere inside
  have mem := List.mem_of_getElem? known
  obtain ⟨args, got, held⟩ := @Signals.readsGathered signals (graph.node i)
    (fun k ref => frame.Holds ref (.number ((graph.node i).operand inputs values k))) fun k read => by
      have pin := List.getElem?_eq_getElem ((graph.node i).primitive.reads_lt k read)
      obtain ⟨source, found, width, ready⟩ := readyAt wellFormed.toWired mem made read pin
      refine ⟨source, found, ?_⟩
      rw [Node.operand, List.getD_eq_getElem?_getD, found, Option.getD_some]
      exact carries.source width ready
  rw [computeNode, ofFound known, pureBind, got, pureBind]
  apply Gives.bind (offsetGives points _)
  intro slice frame₁ grows₁ hs
  rw [Int.zero_add] at hs
  have fits := settledFits wellFormed (fun node _ => node.wordsLt data) settled admits mem (graph.node i).primitive.reads
  have fed : ∀ j k, (graph.node i).primitive.reads[j]? = some k → frame₁.Holds (args.getD j 0)
      (.number ((graph.node i).operand inputs values k)) := fun j k read => grows₁.holds (held j k read)
  have computed : Gives context ((graph.node i).Made block) _ frame₁ memory _ :=
    Primitive.computeGives (wellFormed.valid _ mem) ⟨hs, here, sliceFits wellFormed.stacked mem sized⟩
      (fun stateful access within => ⟨stateful, within⟩) fits fed
  apply Gives.bind (computed.to (congrArg Value.number (settled i _ known).symm))
  intro value frame₂ grows₂ held
  exact Meets.pure ⟨rfl, (carries.grow (grows₁.trans grows₂)).set inside fresh held⟩

theorem foldTraces (here : memory[block]? = some data) {rest : List Nat}
    (order : InOrder (fun i => makers (graph.node i)) done rest) (inside : ∀ i ∈ rest, i < graph.nodes.length)
    (carries : graph.Carries inputs values frame signals done) (points : frame.Holds state (.address block 0)) :
    Traces context (Node.Made block) (rest.map graph.node) (rest.foldlM (graph.computeNode state) signals) frame
      memory fun signals' frame' memory' =>
        memory' = memory ∧ graph.Carries inputs values frame' signals' (done ++ rest) := by
  induction order generalizing frame signals with
  | nil done =>
    rw [List.append_nil]
    exact .none (Meets.pure ⟨rfl, carries⟩)
  | @cons done rest i fresh made behind ih =>
    rw [List.foldlM_cons, List.map_cons, ← List.singleton_append]
    refine Traces.bind (.one (computeNodeMeets wellFormed settled admits sized here
      (inside i List.mem_cons_self) fresh made carries points)) ?_
    rintro signals' frame' _ grows ⟨rfl, carried⟩
    have tail := ih (fun j mem => inside j (List.mem_cons_of_mem i mem)) carried (grows.holds points)
    rw [List.append_assoc, List.singleton_append] at tail
    exact tail

theorem signalsTraces (here : memory[block]? = some data) {refs : List Ref}
    (given : ∀ k port, graph.inputs[k]? = some port → ∃ ref, refs[k]? = some ref ∧ frame.Holds ref (.number (inputs k)))
    (points : frame.Holds state (.address block 0)) :
    Traces context (Node.Made block) (graph.order.map graph.node) (graph.signals refs state) frame memory
      fun signals frame' memory' => memory' = memory ∧ graph.Carries inputs values frame' signals graph.order := by
  have start : graph.Carries inputs values frame ⟨refs, Array.replicate graph.nodes.length none⟩ [] :=
    ⟨given, nofun, Array.size_replicate⟩
  have inside : ∀ i ∈ graph.order, i < graph.nodes.length := fun i mem => (orderMem wellFormed.toWired).mp mem
  exact foldTraces wellFormed settled admits sized here wellFormed.ordered inside start points

theorem prologueTraces (here : memory[block]? = some data)
    (given : ∀ k port, graph.inputs[k]? = some port → frame.params[k]? = some (Value.number (inputs k)))
    (owned : frame.params[graph.inputs.length]? = some (.address block 0)) :
    Traces context (Node.Made block) (graph.order.map graph.node) graph.prologue frame memory
      fun made frame' memory' => memory' = memory ∧ frame'.Holds made.2 (.address block 0) ∧
        graph.Carries inputs values frame' made.1 graph.order := by
  have owns : ∀ {frame' : Frame}, frame.Grows frame' →
      Gives context (fun _ => False) (Emit.param graph.inputs.length) frame' memory (.address block 0) :=
    fun grows => paramGives (grows.params ▸ owned)
  unfold prologue
  rw [← List.nil_append (graph.order.map graph.node)]
  refine Traces.bind (.none (paramsMeet given)) ?_
  rintro refs frame₁ now grows₁ ⟨rfl, held⟩
  rw [← List.nil_append (graph.order.map graph.node)]
  refine Traces.bind (.none (owns grows₁)) ?_
  rintro state frame₂ _ grows₂ ⟨rfl, points⟩
  rw [← List.append_nil (graph.order.map graph.node)]
  refine Traces.bind (signalsTraces wellFormed settled admits sized here
    (fun k port known => (held k port known).imp fun _ both => ⟨both.1, grows₂.holds both.2⟩) points) ?_
  rintro signals frame₃ _ grows₃ ⟨rfl, carries⟩
  exact .none (Meets.pure ⟨rfl, grows₃.holds points, carries⟩)

end Signals

def advance (inputs values : Nat → Nat) (data : Bytes) (nodes : List Node) : Bytes :=
  nodes.foldl (fun data node => node.primitive.advance data node.stateOffset (node.operand inputs values)) data

theorem advanceSize (inputs values : Nat → Nat) (data : Bytes) (nodes : List Node) :
    (advance inputs values data nodes).size = data.size := by
  induction nodes generalizing data with
  | nil => rfl
  | cons node rest ih => exact (ih _).trans Primitive.advanceSize

def storeNode (signals : Signals) (state : Ref) (node : Node) : Emit Unit :=
  if node.primitive.isStateful then do
    let args ← signals.getAll (node.inputs.map some)
    let slice ← Emit.offset state node.stateOffset
    node.primitive.update args slice
  else Pure.pure ()

theorem updateNodesCons (signals : Signals) (state : Ref) (node : Node) (rest : List Node) :
    updateNodes signals state (node :: rest) =
      storeNode signals state node >>= fun _ => updateNodes signals state rest := by
  rw [updateNodes, storeNode]
  split
  · simp only [bindAssoc]
  · rw [pureBind]

section Update

variable {graph : Graph} {inputs values : Nat → Nat} {context : Context} {frame : Frame} {memory : Memory}
  {signals : Signals} {state : Ref} {block : Nat} {data : Bytes}
  (wellFormed : graph.WellFormed) (settled : graph.Settled inputs (Node.words data) values)
  (admits : graph.Admits inputs) (sized : graph.stateBytes < data.size)
include wellFormed settled admits sized

theorem storeNodeLeaves {node : Node} (mem : node ∈ graph.nodes) {now : Bytes} (here : memory[block]? = some now)
    (same : now.size = data.size) (carries : graph.Carries inputs values frame signals graph.order)
    (points : frame.Holds state (.address block 0)) :
    Leaves context (node.Made block) (storeNode signals state node) frame memory
      (memory.setIfInBounds block (node.primitive.advance now node.stateOffset (node.operand inputs values))) := by
  unfold storeNode
  split
  · obtain ⟨args, got, held⟩ := @Signals.inputsGathered signals node
      (fun k ref => frame.Holds ref (.number (node.operand inputs values k))) fun k source found => by
        obtain ⟨_, -, width⟩ := pinAt wellFormed.toWired mem found
        rw [Node.operand, List.getD_eq_getElem?_getD, found, Option.getD_some]
        exact carries.source width (readyLast wellFormed.toWired width)
    rw [got, pureBind]
    apply Gives.bind (offsetGives points _)
    intro slice frame' grows hs
    rw [Int.zero_add] at hs
    have fits := settledFits wellFormed (fun node _ => node.wordsLt data) settled admits mem node.primitive.pins
    have fed : ∀ k pin, node.primitive.inputs[k]? = some pin →
        frame'.Holds (args.getD k 0) (.number (node.operand inputs values k)) := by
      intro k pin here
      obtain ⟨source, known, -⟩ := sourceAt wellFormed.toWired mem here
      exact grows.holds (held k source known)
    have slice : Primitive.Slice frame' memory slice node.primitive block node.stateOffset now :=
      ⟨hs, here, sliceFits wellFormed.stacked mem (same ▸ sized)⟩
    exact Primitive.updateLeaves (wellFormed.valid node mem) slice
      (fun stateful access within => ⟨stateful, within⟩) fits fed
  · rename_i stateless
    have still : node.primitive.advance now node.stateOffset (node.operand inputs values) = now := by
      cases kind : node.primitive with
      | register | mem => simp [kind, Primitive.isStateful] at stateless
      | const | binary | not | compare | mux => rfl
    rw [still, Memory.blockSame here]
    exact Meets.pure rfl

theorem updateNodesTraces {nodes : List Node} (known : ∀ node ∈ nodes, node ∈ graph.nodes) {now : Bytes}
    (here : memory[block]? = some now) (same : now.size = data.size)
    (carries : graph.Carries inputs values frame signals graph.order)
    (points : frame.Holds state (.address block 0)) :
    Traces context (Node.Made block) nodes (updateNodes signals state nodes) frame memory fun _ _ memory' =>
      memory' = memory.setIfInBounds block (advance inputs values now nodes) := by
  -- the signals were computed from `data`, so they stay right on every `now` that updates have left
  induction nodes generalizing frame memory now with
  | nil =>
    have still : memory.setIfInBounds block now = memory := Memory.blockSame here
    exact .none (Meets.pure still.symm)
  | cons node rest ih =>
    rw [updateNodesCons, ← List.singleton_append]
    refine Traces.bind (.one (storeNodeLeaves wellFormed settled admits sized (known node List.mem_cons_self) here
      same carries points)) ?_
    rintro ⟨⟩ frame' _ grows rfl
    have next := Memory.blockSet here
      (node.primitive.advance now node.stateOffset (node.operand inputs values))
    have tail := ih (fun other mem => known other (List.mem_cons_of_mem node mem)) next
      (Primitive.advanceSize.trans same) (carries.grow grows) (grows.holds points)
    rw [Array.setIfInBounds_setIfInBounds] at tail
    exact tail

end Update

end Graph

end CircuitSim
