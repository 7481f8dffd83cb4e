import CircuitSim.Proofs.Body
import CircuitSim.Proofs.Flatten

/-! What an update does to the buffer of state: each node sets bits of its own slice, so the nodes can be stored in
any order. -/
namespace CircuitSim

def Node.Apart (a b : Node) : Prop :=
  a.stateOffset + a.primitive.stateBytes ≤ b.stateOffset ∨ b.stateOffset + b.primitive.stateBytes ≤ a.stateOffset

instance : Std.Symm Node.Apart := ⟨fun _ _ apart => apart.symm⟩

theorem Primitive.advanceComm {p q : Primitive} {offset offset' : Nat} (validP : p.Valid) (validQ : q.Valid)
    (apart : offset + p.stateBytes ≤ offset' ∨ offset' + q.stateBytes ≤ offset) (data : Bytes)
    (input input' : Nat → Nat) :
    q.advance (p.advance data offset input) offset' input' =
      p.advance (q.advance data offset' input') offset input := by
  unfold advance
  cases first : p.change offset input with
  | none => rfl
  | some c =>
    cases second : q.change offset' input' with
    | none => rfl
    | some c' =>
      have inside := changeInside validP first
      have inside' := changeInside validQ second
      exact Bytes.putComm (by omega)

namespace Graph

section Slices

variable {inputs values : Nat → Nat} {nodes : List Node} (valid : ∀ node ∈ nodes, node.primitive.Valid)
include valid

theorem advanceFree {data : Bytes}
    (inside : ∀ node ∈ nodes, node.stateOffset + node.primitive.stateBytes ≤ data.size) {bit : Nat}
    (free : ∀ node ∈ nodes, ∀ change,
      node.primitive.change node.stateOffset (node.operand inputs values) = some change → ¬change.Covers bit) :
    (advance inputs values data nodes).bit bit = data.bit bit := by
  induction nodes generalizing data with
  | nil => rfl
  | cons node rest ih =>
    have first := Primitive.advanceOutside (valid node List.mem_cons_self) (inside node List.mem_cons_self)
      (free node List.mem_cons_self)
    refine (ih (fun other mem => valid other (List.mem_cons_of_mem node mem)) (fun other mem => ?_)
      (fun other mem => free other (List.mem_cons_of_mem node mem))).trans first
    rw [Primitive.advanceSize]
    exact inside other (List.mem_cons_of_mem node mem)

theorem advanceField {data : Bytes}
    (inside : ∀ node ∈ nodes, node.stateOffset + node.primitive.stateBytes ≤ data.size) {start count : Nat}
    (apart : ∀ node ∈ nodes, start + count ≤ 8 * node.stateOffset ∨
      8 * (node.stateOffset + node.primitive.stateBytes) ≤ start) :
    (advance inputs values data nodes).field start count = data.field start count := by
  apply Bytes.fieldCongr
  intro i hi
  apply advanceFree valid inside
  intro node mem change changes covers
  have bounds := Primitive.changeInside (valid node mem) changes
  have away := apart node mem
  have within := covers
  unfold Primitive.Change.Covers at within
  omega

variable (apart : nodes.Pairwise Node.Apart)
include apart

theorem advancePerm {nodes' : List Node} (perm : nodes'.Perm nodes) (data : Bytes) :
    advance inputs values data nodes' = advance inputs values data nodes := by
  have commute : ∀ a ∈ nodes, ∀ b ∈ nodes, ∀ data : Bytes,
      b.primitive.advance (a.primitive.advance data a.stateOffset (a.operand inputs values)) b.stateOffset
          (b.operand inputs values) =
        a.primitive.advance (b.primitive.advance data b.stateOffset (b.operand inputs values)) a.stateOffset
          (a.operand inputs values) := by
    intro a ha b hb data
    by_cases same : a = b
    · rw [same]
    · exact Primitive.advanceComm (valid a ha) (valid b hb) (apart.forall ha hb same) data _ _
  exact (perm.symm.foldl_eq' commute data).symm

theorem advanceOwn {data : Bytes}
    (inside : ∀ node ∈ nodes, node.stateOffset + node.primitive.stateBytes ≤ data.size) {node : Node}
    (mem : node ∈ nodes) {start count : Nat} (first : 8 * node.stateOffset ≤ start)
    (last : start + count ≤ 8 * (node.stateOffset + node.primitive.stateBytes)) :
    (advance inputs values data nodes).field start count =
      (node.primitive.advance data node.stateOffset (node.operand inputs values)).field start count := by
  obtain ⟨before, behind, split⟩ := List.append_of_mem mem
  have perm : (node :: (before ++ behind)).Perm nodes := split ▸ List.perm_middle.symm
  have apart' : (node :: (before ++ behind)).Pairwise Node.Apart := by
    exact perm.symm.pairwise apart fun h => h.symm
  have rest : ∀ other ∈ before ++ behind, other ∈ nodes := fun other mem =>
    perm.subset (List.mem_cons_of_mem node mem)
  rw [← advancePerm valid apart perm]
  refine advanceField (fun other mem => valid other (rest other mem)) (fun other mem => ?_) (fun other mem => ?_)
  · rw [Primitive.advanceSize]
    exact inside other (rest other mem)
  · have away := (List.pairwise_cons.mp apart').1 other mem
    unfold Node.Apart at away
    omega

end Slices

/- The body of an update with the nodes stored in another order. -/
def updateBodyIn (graph : Graph) (stored : List Node) : Emit Unit := do
  let inputs ← graph.params
  let state ← Emit.param graph.inputs.length
  let signals ← graph.signals inputs state
  updateNodes signals state stored

end Graph

/- What an update makes of a node's slice: all bytes of a register hold its `in` pin, and one word of a memory
its `wdata` pin if `wen` is set. -/
def Node.Stored (node : Node) (inputs values : Nat → Nat) (old new : Bytes) : Prop :=
  match node.primitive with
  | .register width =>
    new.field (8 * node.stateOffset) (8 * Width.bytes width) = node.operand inputs values 0
  | .mem width depth => ∀ k < depth, new.field (8 * node.stateOffset + k * width) width =
      if node.operand inputs values 2 = 1 ∧ k = node.operand inputs values 0 % depth then node.operand inputs values 1
      else old.field (8 * node.stateOffset + k * width) width
  | _ => True

namespace Graph.WellFormed
open Emit

variable {graph : Graph} {inputs values : Nat → Nat} {data : Bytes} (wellFormed : graph.WellFormed)
include wellFormed

theorem apart : graph.nodes.Pairwise Node.Apart := wellFormed.stacked.ordered.imp fun before => .inl before

theorem inside (sized : graph.stateBytes < data.size) :
    ∀ node ∈ graph.nodes, node.stateOffset + node.primitive.stateBytes ≤ data.size := by
  intro node mem
  have last := (wellFormed.stacked.inside node mem).2
  omega

variable (settled : graph.Settled inputs (Node.words data) values) (admits : graph.Admits inputs)
  (sized : graph.stateBytes < data.size)
include settled admits sized

theorem stored {node : Node} (mem : node ∈ graph.nodes) :
    node.Stored inputs values data (Graph.advance inputs values data graph.nodes) := by
  have own : ∀ {start count : Nat}, 8 * node.stateOffset ≤ start →
      start + count ≤ 8 * (node.stateOffset + node.primitive.stateBytes) →
      (Graph.advance inputs values data graph.nodes).field start count =
        (node.primitive.advance data node.stateOffset (node.operand inputs values)).field start count :=
    Graph.advanceOwn wellFormed.valid wellFormed.apart (wellFormed.inside sized) mem
  have valid := wellFormed.valid node mem
  have fits := settledFits wellFormed (fun node _ => node.wordsLt data) settled admits mem node.primitive.pins
  have inside := wellFormed.inside sized node mem
  unfold Node.Stored
  split
  · rename_i width kind
    rw [kind] at own inside fits
    rw [own (Nat.le_refl _) (by simp only [Primitive.stateBytes]; omega)]
    exact Primitive.advanceRegister inside (fits 0 (by simp [Primitive.pins, Primitive.inputs]) ("in", width) rfl)
  · rename_i width depth kind
    rw [kind] at own inside fits valid
    intro k bound
    have word := @elementInside width depth k bound
    have bytes := Primitive.stateBytesMem valid
    rw [own (Nat.le_add_right _ _) (by rw [bytes, Width.bytes]; omega)]
    exact Primitive.advanceWord valid inside fits k
  · trivial

theorem updateRuns {context : Context} {params : List Value} {memory : Memory} {block : Nat}
    (here : memory[block]? = some data)
    (given : ∀ k port, graph.inputs[k]? = some port → params[k]? = some (Value.number (inputs k)))
    (owned : params[graph.inputs.length]? = some (.address block 0)) {stored : List Node}
    (perm : stored.Perm graph.nodes) :
    ∃ code reached, (graph.updateBodyIn stored).code = .ok code ∧
      code.exec context (.ofParams params) memory = .ok reached ∧
      Segments (Node.Made block) (graph.order.map graph.node ++ stored) reached.touched ∧
      reached.memory = memory.setIfInBounds block (Graph.advance inputs values data graph.nodes) := by
  have traced : Traces context (Node.Made block) (graph.order.map graph.node ++ stored) (graph.updateBodyIn stored)
      (.ofParams params) memory fun _ _ memory' =>
        memory' = memory.setIfInBounds block (Graph.advance inputs values data graph.nodes) := by
    rw [Graph.updateBodyIn, Graph.prologueBind]
    refine Traces.bind (Graph.prologueTraces wellFormed settled admits sized here given owned) ?_
    rintro ⟨signals, state⟩ frame' _ grows ⟨rfl, points, carries⟩
    rw [← Graph.advancePerm wellFormed.valid wellFormed.apart perm data]
    exact Graph.updateNodesTraces wellFormed settled admits sized (fun node mem => perm.subset mem) here rfl
      carries points
  obtain ⟨⟨⟩, reached, runs, parts, left⟩ := traced
  obtain ⟨code, emitted, ran⟩ := runs.body
  exact ⟨code, reached, emitted, ran, parts, left⟩

end Graph.WellFormed

theorem Segments.all {made : Node → Access → Prop} {nodes : List Node} {touched : List Access}
    (segments : Segments made nodes touched) : ∀ access ∈ touched, ∃ node ∈ nodes, made node access := by
  induction segments with
  | nil => exact nofun
  | @cons node own nodes rest part behind ih =>
    intro access mem
    rcases List.mem_append.mp mem with first | later
    · exact ⟨node, List.mem_cons_self, part access first⟩
    · obtain ⟨other, member, holds⟩ := ih access later
      exact ⟨other, List.mem_cons_of_mem node member, holds⟩

/-- An update runs on every state buffer and every inputs in range. The accesses for a node stay in its slice and
one byte behind it; the slices get what the pins held on the old buffer, whatever the order of the stores, and
every other bit is kept. -/
theorem updateConfined (circuit : Circuit) (id : Nat) (graph : Graph)
    (flat : circuit.flatten .builtin id = .ok graph) (args : List Nat)
    (fit : List.Forall₂ (fun n (port : Port) => n < 2 ^ port.width) args graph.inputs) (data : Bytes)
    (sized : data.size = graph.stateBytes + 16) (context : Context) (memory : Memory) (block : Nat)
    (here : memory[block]? = some data) :
    let inputs : Nat → Nat := fun k => args.getD k 0
    let params : List Value := args.map .number ++ [.address block 0]
    ∃ values data',
      graph.Settled inputs (Node.words data) values ∧
      (∀ values', graph.Settled inputs (Node.words data) values' → ∀ i < graph.nodes.length, values' i = values i) ∧
      graph.updateBody = graph.updateBodyIn graph.nodes ∧
      (∀ stored, stored.Perm graph.nodes → ∃ code reached, (graph.updateBodyIn stored).code = .ok code ∧
        code.run context (.ofParams params) memory = .ok (memory.setIfInBounds block data') ∧
        code.exec context (.ofParams params) memory = .ok reached ∧
        Segments (Node.Made block) (graph.order.map graph.node ++ stored) reached.touched ∧
        ∀ access ∈ reached.touched, access.Within block 0 data.size) ∧
      data'.size = data.size ∧
      (∀ node ∈ graph.nodes, node.Stored inputs values data data') ∧
      ∀ bit, (∀ node ∈ graph.nodes, ∀ change,
        node.primitive.change node.stateOffset (node.operand inputs values) = some change → ¬change.Covers bit) →
        data'.bit bit = data.bit bit := by
  intro inputs params
  obtain ⟨design, of, flattened⟩ := Circuit.flattenOf flat
  have wellFormed := flattened.wellFormed of
  have settled := Graph.evaluateSettled wellFormed inputs (Node.words data)
  have room : graph.stateBytes < data.size := by omega
  have given : ∀ k port, graph.inputs[k]? = some port → params[k]? = some (Value.number (inputs k)) :=
    Graph.paramsGiven fit _
  have owned : params[graph.inputs.length]? = some (.address block 0) := by
    simp [params, ← fit.length_eq]
  have admits : graph.Admits inputs := Graph.argsAdmit fit
  refine ⟨_, Graph.advance inputs (graph.evaluate inputs (Node.words data)) data graph.nodes, settled,
    fun values' settled' => Graph.settledUnique wellFormed settled' settled, rfl, fun stored perm => ?_,
    Graph.advanceSize _ _ _ _, fun node mem => wellFormed.stored settled admits room mem, fun bit free => ?_⟩
  · obtain ⟨code, reached, emitted, ran, parts, left⟩ := wellFormed.updateRuns settled admits room here
      given owned perm
    refine ⟨code, reached, emitted, ?_, ran, parts, fun access mem => ?_⟩
    · rw [Code.runExec, ran, ← left]
      rfl
    · obtain ⟨node, member, -, within⟩ := parts.all access mem
      have known : node ∈ graph.nodes := by
        rcases List.mem_append.mp member with computed | updated
        · obtain ⟨i, mem, rfl⟩ := List.mem_map.mp computed
          exact Graph.nodeMem ((Graph.orderMem wellFormed.toWired).mp mem)
        · exact perm.subset updated
      have last := (wellFormed.stacked.inside node known).2
      exact within.widen (Nat.zero_le _) (by omega)
  · exact Graph.advanceFree wellFormed.valid (wellFormed.inside room) free

def neighbours : Circuit := ⟨[{
  name := "neighbours"
  inputs := [⟨"address", 1⟩, ⟨"data", 3⟩, ⟨"enable", 1⟩]
  instances := [⟨"words", .primitive "mem" [("depth", 2), ("width", 3)]⟩,
    ⟨"last", .primitive "register" [("width", 3)]⟩]
  nets := [⟨.own "address", [.of "words" "waddr", .of "words" "raddr"]⟩, ⟨.own "data", [.of "words" "wdata"]⟩,
    ⟨.own "enable", [.of "words" "wen"]⟩, ⟨.of "words" "rdata", [.of "last" "in"]⟩] }], none⟩

theorem neighboursConfined : ∃ graph data', neighbours.flatten .builtin 0 = .ok graph ∧
    (∃ code, graph.updateBody.code = .ok code ∧ code.run .bare
      (.ofParams [.number 1, .number 5, .number 1, .address 0 0]) #[Array.replicate 18 255] = .ok #[data']) ∧
    data'.field 3 3 = 5 ∧ data'.field 8 8 = 7 := by
  let inputs : List Port := [⟨"address", 1⟩, ⟨"data", 3⟩, ⟨"enable", 1⟩]
  let data : Bytes := Array.replicate 18 255
  cases flat : neighbours.flatten .builtin 0 with
  | error fault => exact nomatch flat
  | ok graph =>
    have known := Except.ok.inj flat.symm
    subst known
    have fit : List.Forall₂ (fun n (port : Port) => n < 2 ^ port.width) [1, 5, 1] inputs := by
      simp [inputs]
    obtain ⟨values, data', settled, -, -, runs, -, stored, -⟩ := updateConfined neighbours 0 _ flat [1, 5, 1] fit data
      rfl .bare #[data] 0 rfl
    obtain ⟨code, reached, emitted, ran, -⟩ := runs _ (.refl _)
    have word := stored _ List.mem_cons_self 1 (by decide)
    have last := stored _ (List.mem_cons_of_mem _ List.mem_cons_self)
    have shown := settled 0 _ rfl
    have before : data.field 3 3 = 7 := by decide
    exact ⟨_, data', rfl, ⟨code, emitted, ran⟩, word, last.trans (shown.trans before)⟩

end CircuitSim
