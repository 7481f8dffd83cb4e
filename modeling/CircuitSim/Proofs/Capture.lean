import CircuitSim.Proofs.Wrapper

/-! What a capture does: the value of every tap is put into its member of a record, and neither the inputs nor the
state change. -/
namespace CircuitSim

namespace Graph

def tapNumber (graph : Graph) (inputs values : Nat → Nat) (k : Nat) : Nat :=
  (graph.taps.getD k default).source.value inputs values

def Captures (graph : Graph) (layout : Layout) (args : List Nat) (data : Bytes) (values : Nat → Nat) : Prop :=
  ∃ code, (graph.captureBody layout).code = .ok code ∧
    ∀ (context : Context) (memory : Memory) (block target : Nat) (old : Bytes), memory[block]? = some data →
      memory[target]? = some old → old.size = layout.size →
      ∃ new, code.run context (.ofParams (args.map .number ++ [.address block 0, .address target 0])) memory =
          .ok (memory.setIfInBounds target new) ∧
        layout.Repacked (graph.tapNumber (fun k => args.getD k 0) values) 0 old new

def CapturesAt (graph : Graph) (layout : Layout) (block target : Nat) (args : List Nat) (data : Bytes)
    (values : Nat → Nat) : Prop :=
  ∀ code, (graph.captureBody layout).code = .ok code → ∀ (context : Context) (memory : Memory) (old : Bytes),
    memory[block]? = some data → memory[target]? = some old → old.size = layout.size →
    ∃ new, code.run context (.ofParams (args.map .number ++ [.address block 0, .address target 0])) memory =
        .ok (memory.setIfInBounds target new) ∧
      layout.Repacked (graph.tapNumber (fun k => args.getD k 0) values) 0 old new

theorem Captures.at {graph : Graph} {layout : Layout} {args : List Nat} {data : Bytes} {values : Nat → Nat}
    (captures : graph.Captures layout args data values) (block target : Nat) :
    graph.CapturesAt layout block target args data values := by
  obtain ⟨code, written, runs⟩ := captures
  intro code' emitted context memory old here here' sized
  obtain rfl := Except.ok.inj (written.symm.trans emitted)
  exact runs context memory block target old here here' sized

open Emit

section Taps

variable {context : Context} {frame : Frame} {memory : Memory} {signals : Signals} {layout : Layout}
  (fit : layout.Writable) {data : Bytes} (sized : data.size = layout.size) {ptr : Ref} {block : Nat}
  (here : memory[block]? = some data) (held : frame.Holds ptr (.address block 0))
include fit sized here held

theorem storeTapsMeets {taps : List Tap} {members : List Member} {number : Nat → Nat} {start : Nat}
    (part : ∀ j, members[j]? = layout.members[start + j]?) (count : taps.length = members.length)
    (carried : ∀ (j : Nat) (tap : Tap) (member : Member), taps[j]? = some tap → members[j]? = some member →
      Sourced frame signals tap.source (number (start + j)) ∧ number (start + j) < 2 ^ member.width ∧
        number (start + j) < 2 ^ 128) :
    Meets context (fun _ => True) (storeTaps signals ptr (taps.zip (members.map (·.placement)))) frame memory
      fun _ _ memory' => ∃ new, memory' = memory.setIfInBounds block new ∧ layout.Repacked number start data new := by
  induction members generalizing taps start frame memory data with
  | nil =>
    obtain rfl := List.length_eq_zero_iff.mp count
    exact Meets.pure ⟨data, (Memory.blockSame here).symm, .done sized (List.getElem?_eq_none_iff.mp (part 0).symm)⟩
  | cons member rest ih =>
    cases taps with
    | nil => exact nomatch count
    | cons tap taps =>
      have mem := List.mem_of_getElem? (part 0).symm
      obtain ⟨⟨ref, got, given⟩, fits, native⟩ := carried 0 tap member rfl rfl
      rw [List.map_cons, List.zip_cons_cons, storeTaps, Signals.get, ofFound got, pureBind]
      apply Leaves.bind (Record.fieldLeaves fit.placed sized mem fit.small here held (fun _ _ => trivial)
        (fit.counts member mem) given fits native)
      intro frame' grows
      let data' := data.put member.offset (Emit.storedWidth member.placement) (number start)
      have next : ∀ j, start + 1 + j = start + (j + 1) := by omega
      have part' : ∀ j, rest[j]? = layout.members[start + 1 + j]? := by
        intro j
        rw [next]
        exact part (j + 1)
      refine (ih ((Bytes.putSize _ _ _ _).trans sized) (Memory.blockSet here data') (grows.holds held) part'
        (Nat.succ.inj count) fun j other member' at' at'' => ?_).mono ?_
      · obtain ⟨given', small⟩ := carried (j + 1) other member' at' at''
        rw [next]
        exact ⟨given'.grow grows, small⟩
      · rintro ⟨⟩ _ memory' _ ⟨new, rfl, packed⟩
        obtain ⟨covers, room⟩ := (fit.placed.placed member mem).storedBounds
        exact ⟨new, Array.setIfInBounds_setIfInBounds _, .step fit.placed sized (part 0).symm covers room fits packed⟩

theorem tapsStored {graph : Graph} (wired : graph.Wired) (shown : graph.TapsFit) {inputs values : Nat → Nat}
    (carries : graph.Carries inputs values frame signals graph.order)
    (widths : List.Forall₂ (fun (member : Member) (tap : Tap) => member.width = tap.width) layout.members graph.taps)
    (small : ∀ tap ∈ graph.taps, tap.source.value inputs values < 2 ^ min tap.width 128) :
    Meets context (fun _ => True) (storeTaps signals ptr (graph.taps.zip (layout.members.map (·.placement)))) frame memory
      fun _ _ memory' => ∃ new, memory' = memory.setIfInBounds block new ∧
        layout.Repacked (graph.tapNumber inputs values) 0 data new := by
  refine storeTapsMeets fit sized here held (fun j => by rw [Nat.zero_add]) widths.length_eq.symm ?_
  intro j tap member known known'
  obtain ⟨tap', at', width⟩ := Result.forallAt widths known'
  obtain rfl := Option.some.inj (known.symm.trans at')
  have own := shown tap (List.mem_of_getElem? known)
  have fits := small tap (List.mem_of_getElem? known)
  have number : graph.tapNumber inputs values (0 + j) = tap.source.value inputs values := by
    rw [tapNumber, Nat.zero_add, List.getD_eq_getElem?_getD, known, Option.getD_some]
  rw [number, width]
  exact ⟨carries.source own (readyLast wired own),
    Nat.lt_of_lt_of_le fits (Nat.pow_le_pow_right (by decide) (Nat.min_le_left _ _)),
    Nat.lt_of_lt_of_le fits (Nat.pow_le_pow_right (by decide) (Nat.min_le_right _ _))⟩

end Taps

namespace WellFormed

variable {graph : Graph} (wellFormed : graph.WellFormed) (shown : graph.TapsFit) {args : List Nat}
  (fits : List.Forall₂ (fun n (port : Port) => n < 2 ^ port.width) args graph.inputs) {data : Bytes}
  (room : graph.stateBytes < data.size) {values : Nat → Nat}
  (settled : graph.Settled (fun k => args.getD k 0) (Node.words data) values) {layout : Layout}
  (fit : layout.Writable)
  (widths : List.Forall₂ (fun (member : Member) (tap : Tap) => member.width = tap.width) layout.members graph.taps)
include wellFormed shown fits room settled fit widths

theorem captureMeets {context : Context} {memory : Memory} {block target : Nat} {old : Bytes}
    (here : memory[block]? = some data) (here' : memory[target]? = some old) (sized : old.size = layout.size) :
    Meets context (fun _ => True) (graph.captureBody layout)
      (.ofParams (args.map .number ++ [.address block 0, .address target 0])) memory fun _ _ memory' =>
        ∃ new, memory' = memory.setIfInBounds target new ∧
          layout.Repacked (graph.tapNumber (fun k => args.getD k 0) values) 0 old new := by
  have admits := argsAdmit fits
  let params : List Value := args.map .number ++ [.address block 0, .address target 0]
  have behind := ownerGiven fits (.address block 0) [.address target 0]
  rw [captureBody]
  have loaded : Traces context (Node.Made block) [] graph.params (.ofParams params) memory _ :=
    .none (paramsMeet (paramsGiven fits _))
  apply Meets.bind loaded.meets
  rintro refs frame₁ now grows₁ ⟨rfl, inputs₁⟩
  apply Gives.bind (paramGives (by rw [grows₁.params]; exact behind 0))
  intro owner frame₂ grows₂ owner₂
  apply Gives.bind (paramGives (by rw [grows₂.params, grows₁.params]; exact behind 1))
  intro ptr frame₃ grows₃ ptr₃
  apply Meets.bind (signalsTraces wellFormed settled admits room here (fun k port known =>
    (inputs₁ k port known).imp fun _ both => ⟨both.1, grows₃.holds (grows₂.holds both.2)⟩) (grows₃.holds owner₂)).meets
  rintro signals frame₄ _ grows₄ ⟨rfl, carries⟩
  refine (tapsStored fit sized here' (grows₄.holds ptr₃) wellFormed.toWired shown carries widths fun tap mem => ?_).mono
    fun _ _ _ _ left => left
  have own := shown tap mem
  rw [Nat.min_eq_left (widthFits wellFormed own).2]
  exact sourceLt wellFormed (fun node _ => node.wordsLt data) settled admits own

theorem captures : graph.Captures layout args data values := by
  have runs : ∀ (context : Context) (memory : Memory) (block target : Nat) (old : Bytes), memory[block]? = some data →
      memory[target]? = some old → old.size = layout.size → ∃ code, (graph.captureBody layout).code = .ok code ∧
        ∃ new, code.run context (.ofParams (args.map .number ++ [.address block 0, .address target 0])) memory =
            .ok (memory.setIfInBounds target new) ∧
          layout.Repacked (graph.tapNumber (fun k => args.getD k 0) values) 0 old new := by
    intro context memory block target old here here' sized
    obtain ⟨code, frame, memory', emitted, ran, new, rfl, packed⟩ :=
      (@captureMeets graph wellFormed shown args fits data room values settled layout fit widths context memory block
        target old here here' sized).body
    exact ⟨code, emitted, new, ran, packed⟩
  -- the code is one for all memories
  obtain ⟨code, emitted, -⟩ := runs .bare #[data, Bytes.zeros layout.size] 0 1 _ rfl rfl
    (Bytes.zerosSize _)
  refine ⟨code, emitted, fun context memory block target old here here' sized => ?_⟩
  obtain ⟨code', emitted', ran⟩ := runs context memory block target old here here' sized
  obtain rfl := Except.ok.inj (emitted.symm.trans emitted')
  exact ran

end WellFormed

end Graph

namespace Wrapper
open Emit

theorem captureWrapped {engine : Engine} {name : String} {graph : Graph} {inputs layout : Layout}
    (fit : inputs.Addressable) {source state old : Bytes} (sized : source.size = inputs.size)
    (wraps : engine.Wraps name (captureBody inputs) (graph.captureBody layout)) {values : Nat → Nat}
    (captures : graph.CapturesAt layout 1 2 (Record.mk inputs source).numbers state values) (sized' : old.size = layout.size) :
    ∃ memory new, engine.invoke name [.address 0 0, .address 1 0, .address 2 0] #[source, state, old] = .ok memory ∧
      memory[1]? = some state ∧ memory[2]? = some new ∧
      layout.Repacked (graph.tapNumber (fun k => (Record.mk inputs source).numbers.getD k 0) values) 0 old new := by
  obtain ⟨callee, code, code', emitted, emitted', context, context', invoke, called, -⟩ := wraps
  let memory : Memory := #[source, state, old]
  let params : List Value := [.address 0 0, .address 1 0, .address 2 0]
  obtain ⟨new, ran, packed⟩ := captures code' emitted' context' memory old rfl rfl sized'
  have meets : Meets context (fun _ => True) (captureBody inputs callee) (.ofParams params) memory
      fun _ _ memory' => memory' = memory.setIfInBounds 2 new := by
    rw [captureBind]
    apply Meets.bind (capturePrologueMeets fit sized state old)
    rintro args frame _ - ⟨rfl, arguments⟩
    exact callLeaves (by rw [called, arguments]; exact ran)
  obtain ⟨code'', frame', memory', own, ran', rfl⟩ := meets.body
  obtain rfl := Except.ok.inj (emitted.symm.trans own)
  exact ⟨_, new, (invoke params memory).trans ran', rfl, rfl, packed⟩

end Wrapper

end CircuitSim
