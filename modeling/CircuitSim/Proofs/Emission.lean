import CircuitSim.Proofs.Evaluation
import CircuitSim.Proofs.Execution
import CircuitSim.Sim.Wrapper

/-! Code is always emitted, whatever widths and places it is for, when every source has its value before it is asked
for. The only calls in it are those of a wrapper to its graph's function, so a graph's function does the same wherever it
is linked. -/
namespace CircuitSim

def Code.CallsOnly (callees : Nat → Prop) : Code → Prop
  | .done => True
  | .define _ rest => rest.CallsOnly callees
  | .store _ _ _ _ rest => rest.CallsOnly callees
  | .call function _ rest => callees function ∧ rest.CallsOnly callees
  | .branch _ body rest => body.CallsOnly callees ∧ rest.CallsOnly callees

theorem Code.callsAppend {callees : Nat → Prop} {a b : Code} (first : a.CallsOnly callees)
    (second : b.CallsOnly callees) : (a ++ b).CallsOnly callees := by
  induction a with
  | done => exact second
  | define op rest ih => exact ih first
  | store arg ptr offset bytes rest ih => exact ih first
  | call function args rest ih => exact ⟨first.1, ih first.2⟩
  | branch cond body rest _ ih => exact ⟨first.1, ih first.2⟩

theorem Op.stepFresh {context context' : Context} (fresh : context.fresh = context'.fresh) (frame : Frame)
    (memory : Memory) (op : Op) : op.step context frame memory = op.step context' frame memory := by
  cases op with
  | slot bytes => rw [step, step, fresh]
  | _ => rfl

theorem Code.runCalls {callees : Nat → Prop} {context context' : Context} (fresh : context.fresh = context'.fresh)
    (same : ∀ function args memory, callees function → context.call function args memory = context'.call function args memory)
    {code : Code} (only : code.CallsOnly callees) (frame : Frame) (memory : Memory) :
    code.run context frame memory = code.run context' frame memory := by
  induction code generalizing frame memory with
  | done => rfl
  | define op rest ih =>
    rw [run, run, op.stepFresh fresh]
    split
    · exact ih only _ _
    · rfl
  | store arg ptr offset bytes rest ih =>
    rw [run, run]
    split
    · exact ih only _ _
    · rfl
  | call function args rest ih =>
    rw [run, run, same _ _ _ only.1]
    split
    · exact ih only.2 _ _
    · rfl
  | branch cond body rest ihBody ih =>
    rw [run, run, ihBody only.1]
    split
    · split
      · exact ih only.2 _ _
      · rfl
    · exact ih only.2 _ _

namespace Emit

variable {α β : Type} {callees : Nat → Prop}

/- Code is emitted wherever the numbering starts, each value of it has a number, and its result is as wanted. -/
def Yields (callees : Nat → Prop) (e : Emit α) (wanted : α → Prop) : Prop :=
  ∀ next, ∃ written, e next = .ok written ∧ written.code.CallsOnly callees ∧
    written.next = next + written.code.values ∧ wanted written.result

def Writes (callees : Nat → Prop) (e : Emit α) : Prop := Yields callees e fun _ => True

theorem Yields.pure {wanted : α → Prop} {result : α} (is : wanted result) :
    Yields callees (Pure.pure result : Emit α) wanted := fun next =>
  ⟨⟨result, .done, next⟩, rfl, trivial, rfl, is⟩

theorem Yields.bind {e : Emit α} {rest : α → Emit β} {between : α → Prop} {wanted : β → Prop}
    (first : Yields callees e between) (second : ∀ a, between a → Yields callees (rest a) wanted) :
    Yields callees (e >>= rest) wanted := by
  intro next
  obtain ⟨written, emitted, only, count, is⟩ := first next
  obtain ⟨written', emitted', only', count', is'⟩ := second written.result is written.next
  refine ⟨⟨written'.result, written.code ++ written'.code, written'.next⟩, ?_, Code.callsAppend only only', ?_, is'⟩
  · simp only [Bind.bind, Emit.bind, emitted, emitted']
  · rw [count', count, Code.values_append, Nat.add_assoc]

theorem ofFound {found : Option α} {result : α} (here : found = some result) : ofOption found = Pure.pure result := by
  rw [here]
  rfl

theorem Writes.pure (result : α) : Writes callees (Pure.pure result : Emit α) := Yields.pure trivial

theorem Writes.bind {e : Emit α} {rest : α → Emit β} (first : Writes callees e) (second : ∀ a, Writes callees (rest a)) :
    Writes callees (e >>= rest) := Yields.bind first fun a _ => second a

theorem opWrites (operation : Op) : Writes callees (op operation) := fun _ => ⟨_, rfl, trivial, rfl, trivial⟩

theorem storeWrites (arg ptr : Ref) (offset : Int) (bytes : Nat) : Writes callees (store arg ptr offset bytes) := fun _ =>
  ⟨_, rfl, trivial, rfl, trivial⟩

theorem callWrites {function : Nat} (known : callees function) (args : List Ref) : Writes callees (call function args) :=
  fun _ => ⟨_, rfl, ⟨known, trivial⟩, rfl, trivial⟩

theorem branchWrites (cond : Ref) {body : Emit Unit} (inner : Writes callees body) : Writes callees (branch cond body) := by
  intro next
  obtain ⟨written, emitted, only, count, -⟩ := inner next
  exact ⟨⟨(), .branch cond written.code .done, written.next⟩, by rw [branch, emitted], ⟨only, trivial⟩, count, trivial⟩

theorem Yields.writes {e : Emit α} {wanted : α → Prop} (yields : Yields callees e wanted) : Writes callees e := by
  intro next
  obtain ⟨written, emitted, only, count, -⟩ := yields next
  exact ⟨written, emitted, only, count, trivial⟩

theorem mapYields {f : α → Emit β} (each : ∀ a, Writes callees (f a)) (xs : List α) :
    Yields callees (xs.mapM f) (·.length = xs.length) := by
  induction xs with
  | nil => exact .pure rfl
  | cons x xs ih =>
    rw [List.mapM_cons]
    exact Yields.bind (each x) fun y _ => ih.bind fun ys all => .pure (congrArg (· + 1) all)

theorem Writes.code {body : Emit Unit} (writes : Writes callees body) :
    ∃ code, body.code = .ok code ∧ code.CallsOnly callees := by
  obtain ⟨written, emitted, only, -⟩ := writes 0
  exact ⟨written.code, by rw [Emit.code, emitted]; rfl, only⟩

theorem windowWrites {bits : Nat} (fits : bits ≤ 128) (what : String) : Writes callees (window bits what) := by
  unfold window
  rw [if_neg (by unfold Width.bytes; omega)]
  exact .pure _

theorem joinWrites (width : Nat) (low high : Ref) : Writes callees (joinHalves width low high) :=
  (opWrites _).bind fun _ => (opWrites _).bind fun _ => (opWrites _).bind fun _ => (opWrites _).bind fun _ => opWrites _

theorem splitWrites (width : Nat) (value : Ref) : Writes callees (splitHalves width value) :=
  (opWrites _).bind fun _ => (opWrites _).bind fun _ => (opWrites _).bind fun _ => (opWrites _).bind fun _ => .pure _

theorem windowFits {field : Placement} (narrow : ¬tooWide field) :
    Width.sum (field.offset % 8) field.width ≤ 128 := by
  have small : field.offset % 8 < 8 := Nat.mod_lt _ (by decide)
  simp only [tooWide, Width.maxNative, Width.half, Width.sum] at narrow ⊢
  omega

theorem loadFieldWrites (base : Ref) (field : Placement) : Writes callees (loadField base field) := by
  induction field using loadField.induct with
  | case1 field shift whole =>
    rw [loadField, if_pos whole]
    exact (opWrites _).bind fun _ => opWrites _
  | case2 field shift whole wide low high =>
    rw [loadField, if_neg whole, dif_pos wide]
    exact low.bind fun _ => high.bind fun _ => joinWrites _ _ _
  | case3 field shift whole narrow =>
    rw [loadField, if_neg whole, dif_neg narrow]
    exact (windowWrites (windowFits narrow) _).bind fun _ => (opWrites _).bind fun _ => (opWrites _).bind fun _ =>
      (opWrites _).bind fun _ => opWrites _

theorem storeFieldWrites (base : Ref) (field : Placement) (value : Ref) : Writes callees (storeField base field value) := by
  induction field, value using storeField.induct with
  | case1 field value shift whole =>
    rw [storeField, if_pos whole]
    exact (opWrites _).bind fun _ => storeWrites _ _ _ _
  | case2 field value shift whole wide low high =>
    rw [storeField, if_neg whole, dif_pos wide]
    exact (splitWrites _ _).bind fun halves => (low halves.1).bind fun _ => high halves.2
  | case3 field value shift whole narrow =>
    rw [storeField, if_neg whole, dif_neg narrow]
    exact (windowWrites (windowFits narrow) _).bind fun _ => (opWrites _).bind fun _ => (opWrites _).bind fun _ =>
      (opWrites _).bind fun _ => (opWrites _).bind fun _ => (opWrites _).bind fun _ => (opWrites _).bind fun _ =>
      (opWrites _).bind fun _ => storeWrites _ _ _ _

theorem loadShiftedWrites (ptr shift : Ref) (width : Nat) : Writes callees (loadShifted ptr shift width) := by
  induction ptr, width using loadShifted.induct with
  | case1 ptr width wide low high =>
    rw [loadShifted, dif_pos wide]
    exact low.bind fun _ => (opWrites _).bind fun upper => (high upper).bind fun _ => joinWrites _ _ _
  | case2 ptr width fits =>
    rw [loadShifted, dif_neg fits]
    exact (windowWrites (not_not.mp fits) _).bind fun _ => (opWrites _).bind fun _ => (opWrites _).bind fun _ =>
      (opWrites _).bind fun _ => opWrites _

theorem storeShiftedWrites (ptr shift : Ref) (width : Nat) (value : Ref) :
    Writes callees (storeShifted ptr shift width value) := by
  induction ptr, width, value using storeShifted.induct with
  | case1 ptr width value wide low high =>
    rw [storeShifted, dif_pos wide]
    exact (splitWrites _ _).bind fun halves => (low halves.1).bind fun _ => (opWrites _).bind fun upper =>
      high halves.2 upper
  | case2 ptr width value fits =>
    rw [storeShifted, dif_neg fits]
    exact (windowWrites (not_not.mp fits) _).bind fun _ => (opWrites _).bind fun _ => (opWrites _).bind fun _ =>
      (opWrites _).bind fun _ => (opWrites _).bind fun _ => (opWrites _).bind fun _ => (opWrites _).bind fun _ =>
      (opWrites _).bind fun _ => (opWrites _).bind fun _ => (opWrites _).bind fun _ => storeWrites _ _ _ _

theorem addressWrites (base index : Ref) (width : Nat) : Writes callees (elementAddress base index width) := by
  unfold elementAddress
  split
  · exact (opWrites _).bind fun _ => (opWrites _).bind fun _ => (opWrites _).bind fun _ => .pure _
  · exact (opWrites _).bind fun _ => (opWrites _).bind fun _ => (opWrites _).bind fun _ => (opWrites _).bind fun _ =>
      (opWrites _).bind fun _ => (opWrites _).bind fun _ => (opWrites _).bind fun _ => .pure _

theorem loadElementWrites (base index : Ref) (width : Nat) : Writes callees (loadElement base index width) := by
  refine (addressWrites base index width).bind fun place => ?_
  split
  · exact opWrites _
  · exact loadShiftedWrites _ _ _

theorem storeElementWrites (base index : Ref) (width : Nat) (value : Ref) :
    Writes callees (storeElement base index width value) := by
  refine (addressWrites base index width).bind fun place => ?_
  split
  · exact storeWrites _ _ _ _
  · exact storeShiftedWrites _ _ _ _

end Emit

open Emit

namespace Primitive

variable {callees : Nat → Prop}

theorem boundedWrites (address : Ref) (depth : Nat) : Writes callees (boundedIndex address depth) := by
  refine (opWrites _).bind fun index => ?_
  split
  · exact .pure _
  · exact opWrites _

theorem computeWrites (primitive : Primitive) (inputs : List Ref) (state : Ref) :
    Writes callees (primitive.compute inputs state) := by
  cases primitive with
  | register => exact loadFieldWrites _ _
  | mem => exact (boundedWrites _ _).bind fun _ => loadElementWrites _ _ _
  | const | binary | not | compare | mux => exact opWrites _

theorem updateWrites (primitive : Primitive) (inputs : List Ref) (state : Ref) :
    Writes callees (primitive.update inputs state) := by
  cases primitive with
  | register => exact storeFieldWrites _ _ _
  | mem => exact branchWrites _ ((boundedWrites _ _).bind fun _ => storeElementWrites _ _ _ _)
  | const | binary | not | compare | mux => exact .pure ()

end Primitive

namespace Signals

variable {signals : Signals} {i : Nat} {ref : Ref}

theorem sizeSet : (signals.set i ref).nodes.size = signals.nodes.size := Array.size_setIfInBounds

theorem getOwn (inside : i < signals.nodes.size) : (signals.set i ref).get? (.node i) = some ref := by
  simp [get?, set, inside]

theorem getOther {source : Source} (other : source ≠ .node i) :
    (signals.set i ref).get? source = signals.get? source := by
  cases source with
  | input k => rfl
  | node j =>
    have apart : i ≠ j := fun same => other (same ▸ rfl)
    simp [get?, set, apart]

theorem allFound {sources : List (Option Source)}
    (known : ∀ entry ∈ sources, ∃ ref, entry.bind signals.get? = some ref) :
    ∃ refs, List.Forall₂ (fun entry ref => entry.bind signals.get? = some ref) sources refs := by
  induction sources with
  | nil => exact ⟨[], .nil⟩
  | cons entry rest ih =>
    obtain ⟨ref, here⟩ := known entry List.mem_cons_self
    obtain ⟨refs, tail⟩ := ih fun entry mem => known entry (List.mem_cons_of_mem _ mem)
    exact ⟨ref :: refs, .cons here tail⟩

theorem getAllFound {sources : List (Option Source)} {refs : List Ref}
    (found : List.Forall₂ (fun entry ref => entry.bind signals.get? = some ref) sources refs) :
    signals.getAll sources = Pure.pure refs := by
  apply ofFound
  induction found with
  | nil => rfl
  | cons here tail ih => simp [List.mapM_cons, here, ih]

theorem gathered {sources : List (Option Source)} {good : Nat → Ref → Prop}
    (each : ∀ j entry, sources[j]? = some entry → ∃ ref, entry.bind signals.get? = some ref ∧ good j ref) :
    ∃ refs, signals.getAll sources = Pure.pure refs ∧ ∀ j entry, sources[j]? = some entry → good j (refs.getD j 0) := by
  obtain ⟨refs, found⟩ := @allFound signals sources fun entry mem => by
    obtain ⟨j, here⟩ := List.mem_iff_getElem?.mp mem
    exact (each j entry here).imp fun _ both => both.1
  refine ⟨refs, getAllFound found, fun j entry here => ?_⟩
  obtain ⟨ref, got, fine⟩ := each j entry here
  obtain ⟨ref', at', got'⟩ := Result.forallAt found here
  rw [List.getD_eq_getElem?_getD, at', Option.getD_some, ← Option.some.inj (got.symm.trans got')]
  exact fine

theorem readsGathered {node : Node} {good : Nat → Ref → Prop}
    (each : ∀ k ∈ node.primitive.reads, ∃ source, node.inputs[k]? = some source ∧
      ∃ ref, signals.get? source = some ref ∧ good k ref) :
    ∃ args, signals.getAll (node.primitive.reads.map (node.inputs[·]?)) = Pure.pure args ∧
      ∀ j k, node.primitive.reads[j]? = some k → good k (args.getD j 0) := by
  obtain ⟨args, got, fine⟩ := @gathered signals (node.primitive.reads.map (node.inputs[·]?))
    (fun j ref => ∀ k, node.primitive.reads[j]? = some k → good k ref) fun j entry here => by
      rw [List.getElem?_map] at here
      obtain ⟨k, read, rfl⟩ := Option.map_eq_some_iff.mp here
      obtain ⟨source, found, ref, known, fine⟩ := each k (List.mem_of_getElem? read)
      refine ⟨ref, by rw [found, Option.bind_some, known], fun k' read' => ?_⟩
      obtain rfl := Option.some.inj (read.symm.trans read')
      exact fine
  exact ⟨args, got, fun j k read => fine j _ (by rw [List.getElem?_map, read, Option.map_some]) k read⟩

theorem inputsGathered {node : Node} {good : Nat → Ref → Prop}
    (each : ∀ k source, node.inputs[k]? = some source → ∃ ref, signals.get? source = some ref ∧ good k ref) :
    ∃ args, signals.getAll (node.inputs.map some) = Pure.pure args ∧
      ∀ k source, node.inputs[k]? = some source → good k (args.getD k 0) := by
  obtain ⟨args, got, fine⟩ := @gathered signals (node.inputs.map some) good fun k entry here => by
    rw [List.getElem?_map] at here
    obtain ⟨source, found, rfl⟩ := Option.map_eq_some_iff.mp here
    exact each k source found
  exact ⟨args, got, fun k source found => fine k _ (by rw [List.getElem?_map, found, Option.map_some])⟩

end Signals

namespace Graph

variable {callees : Nat → Prop} (graph : Graph)

theorem paramsYields : Yields callees graph.params (·.length = graph.inputs.length) := by
  have all := @mapYields _ _ callees Emit.param (fun _ => opWrites _) (List.range graph.inputs.length)
  rwa [List.length_range] at all

structure Holds (signals : Signals) (done : List Nat) : Prop where
  ready : ∀ source, graph.Ready done source → ∃ ref, signals.get? source = some ref
  size : signals.nodes.size = graph.nodes.length

variable {graph} {signals : Signals} {done : List Nat}

theorem Holds.set {i : Nat} (holds : graph.Holds signals done) (inside : i < graph.nodes.length) (ref : Ref) :
    graph.Holds (signals.set i ref) (done ++ [i]) := by
  refine ⟨fun source ready => ?_, Signals.sizeSet.trans holds.size⟩
  by_cases own : source = .node i
  · exact ⟨ref, own ▸ Signals.getOwn (holds.size ▸ inside)⟩
  · rw [Signals.getOther own]
    apply holds.ready source
    cases source with
    | input k => exact ready
    | node j => exact (List.mem_append.mp ready).resolve_right fun last => own (List.mem_singleton.mp last ▸ rfl)

theorem Holds.getWrites (holds : graph.Holds signals done) {source : Source} (ready : graph.Ready done source) :
    Writes callees (signals.get source) := by
  obtain ⟨ref, found⟩ := holds.ready source ready
  rw [Signals.get, ofFound found]
  exact .pure ref

theorem Holds.getAllWrites (holds : graph.Holds signals done) {sources : List (Option Source)}
    (ready : ∀ entry ∈ sources, ∃ source, entry = some source ∧ graph.Ready done source) :
    Writes callees (signals.getAll sources) := by
  obtain ⟨refs, found⟩ := @Signals.allFound signals sources fun entry mem => by
    obtain ⟨source, same, own⟩ := ready entry mem
    rw [same]
    exact holds.ready source own
  rw [Signals.getAllFound found]
  exact .pure refs

theorem computeNodeYields (holds : graph.Holds signals done) {i : Nat} (inside : i < graph.nodes.length)
    (reads : ∀ k ∈ (graph.node i).primitive.reads,
      ∃ source, (graph.node i).inputs[k]? = some source ∧ graph.Ready done source) (state : Ref) :
    Yields callees (graph.computeNode state signals i) (graph.Holds · (done ++ [i])) := by
  rw [computeNode, ofFound (nodeHere inside), pureBind]
  refine Yields.bind (holds.getAllWrites fun entry mem => ?_) fun args _ => ?_
  · obtain ⟨k, read, rfl⟩ := List.mem_map.mp mem
    exact reads k read
  · refine Yields.bind (opWrites _) fun slice _ => Yields.bind (Primitive.computeWrites _ _ _) fun value _ => ?_
    exact .pure (holds.set inside value)

theorem foldYields (supplied : graph.Supplied) (state : Ref) {before rest : List Nat}
    (split : graph.order = before ++ rest) (holds : graph.Holds signals before) :
    Yields callees (rest.foldlM (graph.computeNode state) signals) (graph.Holds · graph.order) := by
  induction rest generalizing before signals with
  | nil =>
    rw [split, List.append_nil]
    exact .pure holds
  | cons i rest ih =>
    rw [List.foldlM_cons]
    have inside := supplied.nodes i (split ▸ List.mem_append_right before List.mem_cons_self)
    refine (computeNodeYields holds inside (supplied.reads before i rest split) state).bind fun signals holds => ?_
    exact ih (by rw [split, List.append_assoc, List.singleton_append]) holds

theorem signalsYields (supplied : graph.Supplied) {inputs : List Ref} (all : inputs.length = graph.inputs.length)
    (state : Ref) : Yields callees (graph.signals inputs state) (graph.Holds · graph.order) := by
  refine foldYields supplied state (List.nil_append _).symm ⟨fun source ready => ?_, by simp⟩
  cases source with
  | input k => exact ⟨_, List.getElem?_eq_getElem (all ▸ ready)⟩
  | node i => exact absurd ready List.not_mem_nil

theorem storeOutputsWrites (holds : graph.Holds signals done) (param : Nat) (outputs : List (Port × Source))
    (ready : ∀ output ∈ outputs, graph.Ready done output.2) : Writes callees (storeOutputs signals param outputs) := by
  induction outputs generalizing param with
  | nil => exact .pure ()
  | cons output rest ih =>
    refine (opWrites _).bind fun _ => (holds.getWrites (ready output List.mem_cons_self)).bind fun _ => ?_
    exact (storeWrites _ _ _ _).bind fun _ => ih _ fun output mem => ready output (List.mem_cons_of_mem _ mem)

theorem updateNodesWrites (holds : graph.Holds signals done) (state : Ref) (nodes : List Node)
    (ready : ∀ node ∈ nodes, ∀ source ∈ node.inputs, graph.Ready done source) :
    Writes callees (updateNodes signals state nodes) := by
  induction nodes with
  | nil => exact .pure ()
  | cons node rest ih =>
    have later := ih fun node mem => ready node (List.mem_cons_of_mem _ mem)
    rw [updateNodes]
    split
    · refine (holds.getAllWrites fun entry mem => ?_).bind fun _ => (opWrites _).bind fun _ =>
        (Primitive.updateWrites _ _ _).bind fun _ => later
      obtain ⟨source, used, rfl⟩ := List.mem_map.mp mem
      exact ⟨source, rfl, ready node List.mem_cons_self source used⟩
    · exact later

theorem storeTapsWrites (holds : graph.Holds signals done) (record : Ref) (taps : List (Tap × Placement))
    (ready : ∀ tap ∈ taps, graph.Ready done tap.1.source) : Writes callees (storeTaps signals record taps) := by
  induction taps with
  | nil => exact .pure ()
  | cons tap rest ih =>
    refine (holds.getWrites (ready tap List.mem_cons_self)).bind fun _ => (storeFieldWrites _ _ _).bind fun _ => ?_
    exact ih fun tap mem => ready tap (List.mem_cons_of_mem _ mem)

section Bodies

variable (supplied : graph.Supplied)
include supplied

theorem computeBodyWrites : Writes callees graph.computeBody :=
  graph.paramsYields.bind fun _ all => Yields.bind (opWrites _) fun _ _ => (signalsYields supplied all _).bind fun _ holds =>
    storeOutputsWrites holds _ _ supplied.outputs

theorem updateBodyWrites : Writes callees graph.updateBody :=
  graph.paramsYields.bind fun _ all => Yields.bind (opWrites _) fun _ _ => (signalsYields supplied all _).bind fun _ holds =>
    updateNodesWrites holds _ _ supplied.operands

theorem captureBodyWrites (layout : Layout) : Writes callees (graph.captureBody layout) :=
  graph.paramsYields.bind fun _ all => Yields.bind (opWrites _) fun _ _ => Yields.bind (opWrites _) fun _ _ =>
    (signalsYields supplied all _).bind fun _ holds =>
      storeTapsWrites holds _ _ fun tap mem => supplied.taps tap.1 (List.of_mem_zip mem).1

end Bodies

end Graph

namespace Wrapper

variable (inputs outputs : Layout) (callee : Nat)

theorem loadRecordWrites {callees : Nat → Prop} (layout : Layout) (ptr : Ref) : Writes callees (loadRecord layout ptr) :=
  (mapYields (fun _ => loadFieldWrites _ _) _).writes

theorem storeRecordWrites {callees : Nat → Prop} (ptr : Ref) (members : List (Member × Ref)) :
    Writes callees (storeRecord ptr members) := by
  induction members with
  | nil => exact .pure ()
  | cons member rest ih => exact (opWrites _).bind fun _ => (storeFieldWrites _ _ _).bind fun _ => ih

theorem innerWrites (args : List Ref) : Writes (· = callee) (call callee args) :=
  @callWrites (· = callee) callee rfl args

theorem computeBodyWrites : Writes (· = callee) (computeBody inputs outputs callee) :=
  (opWrites _).bind fun _ => (opWrites _).bind fun _ => (opWrites _).bind fun _ => (loadRecordWrites _ _).bind fun _ =>
    (mapYields (fun _ => opWrites _) _).writes.bind fun _ => (innerWrites _ _).bind fun _ => storeRecordWrites _ _

theorem updateBodyWrites : Writes (· = callee) (updateBody inputs callee) :=
  (opWrites _).bind fun _ => (opWrites _).bind fun _ => (loadRecordWrites _ _).bind fun _ => innerWrites _ _

theorem captureBodyWrites : Writes (· = callee) (captureBody inputs callee) :=
  (opWrites _).bind fun _ => (opWrites _).bind fun _ => (opWrites _).bind fun _ => (loadRecordWrites _ _).bind fun _ =>
    innerWrites _ _

end Wrapper

end CircuitSim
