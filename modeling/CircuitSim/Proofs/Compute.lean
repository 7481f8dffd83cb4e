import CircuitSim.Proofs.Update

/-! What the exported functions of a graph do: a compute stores the values of the outputs behind their pointers and
changes nothing else, an update replaces the state. -/
namespace CircuitSim

namespace Graph

structure Outs (outputs : List (Port × Source)) (memory : Memory) (block : Nat) (outs : List Nat) : Prop where
  distinct : (block :: outs).Nodup
  length : outs.length = outputs.length
  room : ∀ (k : Nat) (output : Port × Source) (out : Nat), outputs[k]? = some output → outs[k]? = some out →
    ∃ old : Bytes, memory[out]? = some old ∧ Width.containerBytes output.1.width ≤ old.size

structure Stored (outputs : List (Port × Source)) (inputs values : Nat → Nat) (outs : List Nat)
    (memory memory' : Memory) : Prop where
  kept : ∀ other : Nat, other ∉ outs → memory'[other]? = memory[other]?
  stored : ∀ (k : Nat) (output : Port × Source) (out : Nat), outputs[k]? = some output → outs[k]? = some out →
    ∃ old new : Bytes, memory[out]? = some old ∧ memory'[out]? = some new ∧ new.size = old.size ∧
      new.field 0 (8 * Width.containerBytes output.1.width) = output.2.value inputs values

/- Every call of a compute with these inputs on this state stores the outputs. -/
def Computes (graph : Graph) (args : List Nat) (data : Bytes) (values : Nat → Nat) : Prop :=
  ∃ code, graph.computeBody.code = .ok code ∧ ∀ (context : Context) (memory : Memory) (block : Nat) (outs : List Nat),
    memory[block]? = some data → Outs graph.outputs memory block outs →
    ∃ memory', code.run context (.ofParams (args.map .number ++ .address block 0 :: outs.map (.address · 0))) memory =
        .ok memory' ∧ Stored graph.outputs (fun k => args.getD k 0) values outs memory memory'

def ComputesAt (graph : Graph) (block : Nat) (outs args : List Nat) (data : Bytes) (values : Nat → Nat) : Prop :=
  ∀ code, graph.computeBody.code = .ok code → ∀ (context : Context) (memory : Memory),
    memory[block]? = some data → Outs graph.outputs memory block outs →
    ∃ memory', code.run context (.ofParams (args.map .number ++ .address block 0 :: outs.map (.address · 0))) memory =
        .ok memory' ∧ Stored graph.outputs (fun k => args.getD k 0) values outs memory memory'

theorem Computes.at {graph : Graph} {args : List Nat} {data : Bytes} {values : Nat → Nat}
    (computes : graph.Computes args data values) (block : Nat) (outs : List Nat) :
    graph.ComputesAt block outs args data values := by
  obtain ⟨code, written, runs⟩ := computes
  intro code' emitted context memory here room
  obtain rfl := Except.ok.inj (written.symm.trans emitted)
  exact runs context memory block outs here room

def Updates (graph : Graph) (args : List Nat) (data data' : Bytes) : Prop :=
  ∃ code, graph.updateBody.code = .ok code ∧ ∀ (context : Context) (memory : Memory) (block : Nat),
    memory[block]? = some data → code.run context (.ofParams (args.map .number ++ [.address block 0])) memory =
      .ok (memory.setIfInBounds block data')

def UpdatesAt (graph : Graph) (block : Nat) (args : List Nat) (data data' : Bytes) : Prop :=
  ∀ code, graph.updateBody.code = .ok code → ∀ (context : Context) (memory : Memory), memory[block]? = some data →
    code.run context (.ofParams (args.map .number ++ [.address block 0])) memory = .ok (memory.setIfInBounds block data')

theorem Updates.at {graph : Graph} {args : List Nat} {data data' : Bytes} (updates : graph.Updates args data data')
    (block : Nat) : graph.UpdatesAt block args data data' := by
  obtain ⟨code, written, runs⟩ := updates
  intro code' emitted context memory here
  obtain rfl := Except.ok.inj (written.symm.trans emitted)
  exact runs context memory block here

end Graph

theorem Width.containerLe (width : Nat) : Width.containerBytes width ≤ 16 := by
  unfold Width.containerBytes
  repeat' split
  all_goals decide

theorem Width.ltContainer {width n : Nat} (narrow : width ≤ 128) (small : n < 2 ^ width) :
    n < 2 ^ (8 * Width.containerBytes width) := by
  have le := Width.le_containerBits narrow
  unfold Width.containerBits at le
  exact Nat.lt_of_lt_of_le small (Nat.pow_le_pow_right (by decide) (by omega))

namespace Graph
open Emit

section Outputs

variable {inputs values : Nat → Nat} {context : Context} {signals : Signals} {block : Nat}

theorem Outs.rest {output : Port × Source} {rest : List (Port × Source)} {out : Nat} {outs : List Nat} {memory : Memory}
    (room : Outs (output :: rest) memory block (out :: outs)) (new : Bytes) :
    Outs rest (memory.setIfInBounds out new) block outs := by
  obtain ⟨apart, distinct⟩ := List.nodup_cons.mp room.distinct
  obtain ⟨fresh, distinct'⟩ := List.nodup_cons.mp distinct
  refine ⟨List.nodup_cons.mpr ⟨fun mem => apart (List.mem_cons_of_mem out mem), distinct'⟩, Nat.succ.inj room.length,
    fun k output' out' known known' => ?_⟩
  have different : out ≠ out' := by
    rintro rfl
    exact fresh (List.mem_of_getElem? known')
  rw [Memory.blockOther different new]
  exact room.room (k + 1) output' out' known known'

theorem Stored.cons {output : Port × Source} {rest : List (Port × Source)} {out : Nat} {outs : List Nat}
    {memory memory' : Memory} {old new : Bytes} (here : memory[out]? = some old) (fresh : out ∉ outs)
    (size : new.size = old.size)
    (value : new.field 0 (8 * Width.containerBytes output.1.width) = output.2.value inputs values)
    (behind : Stored rest inputs values outs (memory.setIfInBounds out new) memory') :
    Stored (output :: rest) inputs values (out :: outs) memory memory' := by
  refine ⟨fun other absent => ?_, fun k output' out' known known' => ?_⟩
  · obtain ⟨different, absent'⟩ := not_or.mp fun either => absent (List.mem_cons.mpr either)
    rw [behind.kept other absent', Memory.blockOther (Ne.symm different) new]
  · cases k with
    | zero =>
      cases known
      cases known'
      refine ⟨old, new, here, ?_, size, value⟩
      rw [behind.kept out fresh]
      exact Memory.blockSet here new
    | succ k =>
      have different : out ≠ out' := by
        rintro rfl
        exact fresh (List.mem_of_getElem? known')
      have tail := behind.stored k output' out' known known'
      rw [Memory.blockOther different new] at tail
      exact tail

theorem storeOutputsMeets {outputs : List (Port × Source)} {outs : List Nat} {first : Nat} {frame : Frame}
    {memory : Memory} (room : Outs outputs memory block outs)
    (narrow : ∀ output ∈ outputs, output.1.width ≤ 128 ∧ output.2.value inputs values < 2 ^ output.1.width)
    (held : ∀ output ∈ outputs, Sourced frame signals output.2 (output.2.value inputs values))
    (given : ∀ k out, outs[k]? = some out → frame.params[first + k]? = some (.address out 0)) :
    Meets context (fun _ => True) (storeOutputs signals first outputs) frame memory fun _ _ memory' =>
      Stored outputs inputs values outs memory memory' := by
  -- the blocks are apart: a store leaves the room for the later outputs as it is
  induction outputs generalizing outs first frame memory with
  | nil => exact Meets.pure ⟨fun _ _ => rfl, nofun⟩
  | cons output rest ih =>
    obtain ⟨port, source⟩ := output
    cases outs with
    | nil => exact nomatch room.length
    | cons out outs =>
      obtain ⟨old, here, large⟩ := room.room 0 _ _ rfl rfl
      simp only at large
      obtain ⟨-, distinct⟩ := List.nodup_cons.mp room.distinct
      obtain ⟨fresh, -⟩ := List.nodup_cons.mp distinct
      obtain ⟨thin, small⟩ := narrow _ List.mem_cons_self
      obtain ⟨ref, got, holds⟩ := held _ List.mem_cons_self
      unfold storeOutputs
      apply Gives.bind (paramGives (given 0 out rfl))
      intro ptr frame₁ grows₁ points
      rw [Signals.get, ofFound got, pureBind]
      let new := old.put (8 * 0) (8 * Width.containerBytes port.width) (source.value inputs values)
      have stored : Leaves context (fun _ => True) (Emit.store ref ptr 0 (Width.containerBytes port.width))
          frame₁ memory (memory.setIfInBounds out new) :=
        storeLeaves points here (Int.add_zero _) ((Nat.zero_add _).symm ▸ large) (Width.containerLe _) trivial
          (grows₁.holds holds)
      apply Leaves.bind stored
      intro frame₂ grows₂
      have grown := grows₁.trans grows₂
      refine (ih (room.rest new) (fun output mem => narrow output (List.mem_cons_of_mem _ mem))
        (fun output mem => (held output (List.mem_cons_of_mem _ mem)).grow grown)
        (fun k out' known => ?_)).mono ?_
      · rw [grown.params, Nat.add_assoc, Nat.add_comm 1 k]
        exact given (k + 1) out' known
      · rintro ⟨⟩ _ memory' _ behind
        have value : new.field 0 (8 * Width.containerBytes port.width) = source.value inputs values :=
          Bytes.fieldPut (by omega) (Width.ltContainer thin small)
        exact behind.cons here fresh (old.putSize _ _ _) value

theorem outsExist (outputs : List (Port × Source)) (data : Bytes) :
    ∃ (memory : Memory) (outs : List Nat), memory[0]? = some data ∧ Outs outputs memory 0 outs := by
  let blocks := outputs.map fun output => Bytes.zeros (Width.containerBytes output.1.width)
  let outs := (List.range outputs.length).map Nat.succ
  refine ⟨(data :: blocks).toArray, outs, by simp, ?_, by simp [outs], ?_⟩
  · rw [← List.range_succ_eq_map]
    exact List.nodup_range
  · intro k output out known known'
    obtain ⟨inside, -⟩ := List.getElem?_eq_some_iff.mp known
    have index : out = k + 1 := by
      rw [List.getElem?_map, List.getElem?_range inside] at known'
      exact (Option.some.inj known').symm
    refine ⟨Bytes.zeros (Width.containerBytes output.1.width), ?_, by simp⟩
    rw [List.getElem?_toArray, index, List.getElem?_cons_succ, List.getElem?_map, known, Option.map_some]

end Outputs

theorem outputsStored {graph : Graph} (wired : graph.Wired) {args : List Nat}
    (fit : List.Forall₂ (fun n (port : Port) => n < 2 ^ port.width) args graph.inputs) {values : Nat → Nat}
    {context : Context} {frame : Frame} {memory : Memory} {signals : Signals} {block : Nat} {outs : List Nat}
    (room : Outs graph.outputs memory block outs)
    (carries : graph.Carries (fun k => args.getD k 0) values frame signals graph.order)
    (small : ∀ output ∈ graph.outputs, output.2.value (fun k => args.getD k 0) values < 2 ^ output.1.width)
    (params : frame.params = args.map .number ++ .address block 0 :: outs.map (.address · 0)) :
    Meets context (fun _ => True) (storeOutputs signals (graph.inputs.length + 1) graph.outputs) frame memory
      fun _ _ memory' => Stored graph.outputs (fun k => args.getD k 0) values outs memory memory' := by
  apply storeOutputsMeets room
  · exact fun output mem => ⟨(wired.outputs output mem).2.2, small output mem⟩
  · intro output mem
    have width := (wired.outputs output mem).1
    exact carries.source width (readyLast wired width)
  · intro k out known
    rw [params, Nat.add_assoc, Nat.add_comm 1 k]
    refine (ownerGiven fit _ _ (k + 1)).trans ?_
    rw [List.getElem?_cons_succ, List.getElem?_map, known, Option.map_some]

namespace WellFormed

variable {graph : Graph} (wellFormed : graph.WellFormed) {args : List Nat}
  (fit : List.Forall₂ (fun n (port : Port) => n < 2 ^ port.width) args graph.inputs) {data : Bytes}
  (sized : graph.stateBytes < data.size) {values : Nat → Nat}
  (settled : graph.Settled (fun k => args.getD k 0) (Node.words data) values)
include wellFormed fit sized settled

theorem computeMeets {context : Context} {memory : Memory} {block : Nat} {outs : List Nat} (here : memory[block]? = some data)
    (room : Outs graph.outputs memory block outs) : Meets context (fun _ => True) graph.computeBody
      (.ofParams (args.map .number ++ .address block 0 :: outs.map (.address · 0))) memory fun _ _ memory' =>
        Stored graph.outputs (fun k => args.getD k 0) values outs memory memory' := by
  have admits := argsAdmit fit
  rw [computeBody, prologueBind]
  apply Meets.bind (prologueTraces wellFormed settled admits sized here (paramsGiven fit _) (ownerGiven fit _ _ 0)).meets
  rintro ⟨signals, state⟩ frame' _ grows ⟨rfl, -, carries⟩
  exact outputsStored wellFormed.toWired fit room carries (fun output mem =>
    sourceLt wellFormed (fun node _ => node.wordsLt data) settled admits (wellFormed.outputs output mem).1) grows.params

theorem computes : graph.Computes args data values := by
  -- the code does not depend on the memory that it is emitted for, so any one shows that there is code
  obtain ⟨memory, outs, here, room⟩ := outsExist graph.outputs data
  obtain ⟨code, -, -, emitted, -⟩ :=
    (@computeMeets graph wellFormed args fit data sized values settled .bare _ _ _ here room).body
  refine ⟨code, emitted, fun context memory block outs here room => ?_⟩
  obtain ⟨code', frame', memory', emitted', ran, stored⟩ :=
    (@computeMeets graph wellFormed args fit data sized values settled context _ _ _ here room).body
  obtain rfl := Except.ok.inj (emitted.symm.trans emitted')
  exact ⟨memory', ran, stored⟩

theorem updates : graph.Updates args data (advance (fun k => args.getD k 0) values data graph.nodes) := by
  have admits := argsAdmit fit
  have runs : ∀ (context : Context) (memory : Memory) (block : Nat), memory[block]? = some data →
      ∃ code, graph.updateBody.code = .ok code ∧
        code.run context (.ofParams (args.map .number ++ [.address block 0])) memory =
          .ok (memory.setIfInBounds block (advance (fun k => args.getD k 0) values data graph.nodes)) := by
    intro context memory block here
    obtain ⟨code, reached, emitted, ran, -, left⟩ := wellFormed.updateRuns settled admits sized here
      (paramsGiven fit _) (ownerGiven fit _ [] 0) (.refl _)
    exact ⟨code, emitted, by rw [Code.runExec, ran, ← left]; rfl⟩
  obtain ⟨code, emitted, -⟩ := runs .bare #[data] 0 rfl
  refine ⟨code, emitted, fun context memory block here => ?_⟩
  obtain ⟨code', emitted', ran⟩ := runs context memory block here
  obtain rfl := Except.ok.inj (emitted.symm.trans emitted')
  exact ran

end WellFormed

end Graph

end CircuitSim
