import CircuitSim.Proofs.Compute
import CircuitSim.Proofs.Linking
import CircuitSim.Proofs.Record

/-! What a caller gets from the functions over buffers: the inputs are taken from their record, the function of the
graph does its work, and the outputs are put into theirs. -/
namespace CircuitSim

structure Layout.Addressable (layout : Layout) : Prop where
  placed : layout.WellPlaced
  narrow : ∀ member ∈ layout.members, member.width ≤ 128
  small : layout.size < 2 ^ 31

structure Layout.Writable (layout : Layout) : Prop where
  placed : layout.WellPlaced
  counts : ∀ member ∈ layout.members, member.width + 7 < 2 ^ 32
  small : layout.size < 2 ^ 31

def Layout.pack (layout : Layout) (number : Nat → Nat) : Nat → List Member → Bytes → Bytes
  | _, [], data => data
  | start, member :: rest, data =>
    layout.pack number (start + 1) rest (data.put member.offset (layout.rules.room member.width) (number start))

structure Layout.Repacked (layout : Layout) (number : Nat → Nat) (start : Nat) (data data' : Bytes) : Prop where
  size : data'.size = layout.size
  put : ∀ i member, start ≤ i → layout.members[i]? = some member → (Record.mk layout data').value member = number i
  kept : ∀ i member, i < start → layout.members[i]? = some member →
    (Record.mk layout data').value member = (Record.mk layout data).value member

namespace Layout.Repacked

variable {layout : Layout} {number : Nat → Nat} {start : Nat} {data data' : Bytes}

theorem done (sized : data.size = layout.size) (stop : layout.members.length ≤ start) :
    layout.Repacked number start data data := by
  refine ⟨sized, fun i member after known => ?_, fun _ _ _ _ => rfl⟩
  obtain ⟨inside, -⟩ := List.getElem?_eq_some_iff.mp known
  exact absurd inside (Nat.not_lt_of_le (Nat.le_trans stop after))

theorem step (placed : layout.WellPlaced) (sized : data.size = layout.size) {member : Member}
    (known : layout.members[start]? = some member) {count : Nat} (covers : member.width ≤ count)
    (room : count ≤ layout.rules.room member.width) (fits : number start < 2 ^ member.width)
    (later : layout.Repacked number (start + 1) (data.put member.offset count (number start)) data') :
    layout.Repacked number start data data' := by
  refine ⟨later.size, fun i other after known' => ?_, fun i other before known' => ?_⟩
  · rcases Nat.eq_or_lt_of_le after with rfl | behind
    · obtain rfl := Option.some.inj (known.symm.trans known')
      rw [later.kept start member (Nat.lt_succ_self start) known]
      exact Record.putOwn placed (List.mem_of_getElem? known) sized covers room fits
    · exact later.put i other behind known'
  · rw [later.kept i other (Nat.lt_succ_of_lt before) known']
    exact Record.putOther placed (List.mem_of_getElem? known) sized room known known' (Nat.ne_of_lt before)

end Layout.Repacked

theorem Layout.packRepacked {layout : Layout} (placed : layout.WellPlaced) {number : Nat → Nat} {members : List Member}
    {start : Nat} (part : ∀ j, members[j]? = layout.members[start + j]?)
    (fits : ∀ j member, members[j]? = some member → number (start + j) < 2 ^ member.width) {data : Bytes}
    (sized : data.size = layout.size) : layout.Repacked number start data (layout.pack number start members data) := by
  induction members generalizing start data with
  | nil => exact .done sized (List.getElem?_eq_none_iff.mp (part 0).symm)
  | cons member rest ih =>
    have next : ∀ j, start + 1 + j = start + (j + 1) := by omega
    refine .step placed sized (part 0).symm (layout.rules.leRoom _) (Nat.le_refl _) (fits 0 member rfl)
      (ih (fun j => ?_) (fun j other known => ?_) ((Bytes.putSize _ _ _ _).trans sized))
    · rw [next]
      exact part (j + 1)
    · rw [next]
      exact fits (j + 1) other known

def Graph.outputNumber (graph : Graph) (inputs values : Nat → Nat) (k : Nat) : Nat :=
  (graph.outputs.getD k default).2.value inputs values

def Record.numbers (record : Record) : List Nat := record.layout.members.map record.value

namespace Wrapper
open Emit

variable {context : Context} {frame : Frame} {memory : Memory}

section Members

variable {layout : Layout} (fit : layout.Addressable) {data : Bytes} (sized : data.size = layout.size) {ptr : Ref}
  {block : Nat} (here : memory[block]? = some data) (held : frame.Holds ptr (.address block 0))

include fit sized here held in
theorem loadRecordMeets : Meets context (fun _ => True) (loadRecord layout ptr) frame memory fun refs frame' memory' =>
    memory' = memory ∧ List.Forall₂ (fun member ref =>
      frame'.Holds ref (.number ((Record.mk layout data).value member))) layout.members refs :=
  mapGives fun member mem _ grows => Record.memberGives fit.placed sized mem fit.small here (grows.holds held)
    (fun _ _ => trivial) (fit.narrow member mem)

/- Fresh blocks for members, right behind the blocks that are there. -/
structure Slots (members : List Member) (before memory : Memory) (outs : List Nat) : Prop where
  places : outs = List.range' before.size members.length
  kept : ∀ i < before.size, memory[i]? = before[i]?
  fresh : ∀ (k : Nat) (member : Member) (out : Nat), members[k]? = some member → outs[k]? = some out →
    ∃ data, memory[out]? = some data ∧ data.size = Width.containerBytes member.width

namespace Slots

variable {members : List Member} {before : Memory} {outs : List Nat} (slots : Slots members before memory outs)
include slots

theorem length : outs.length = members.length := by rw [slots.places, List.length_range']

theorem distinct : outs.Nodup := by
  rw [slots.places]
  exact List.nodup_range'

theorem behind : ∀ out ∈ outs, before.size ≤ out := by
  rw [slots.places]
  exact fun out mem => (List.mem_range'_1.mp mem).1

end Slots

theorem slotsMeet (members : List Member) :
    Meets context (fun _ => True) (members.mapM fun member => slot (Width.containerBytes member.width)) frame memory
      fun refs frame' memory' => ∃ outs, Slots members memory memory' outs ∧
        List.Forall₂ (fun ref out => frame'.Holds ref (.address out 0)) refs outs := by
  induction members generalizing frame memory with
  | nil => exact Meets.pure ⟨[], ⟨rfl, fun _ _ => rfl, nofun⟩, .nil⟩
  | cons member rest ih =>
    rw [List.mapM_cons]
    apply Meets.bind (slotMeets _)
    rintro ref frame₁ _ grows₁ ⟨⟨data, size, rfl⟩, first⟩
    apply Meets.bind ih
    rintro refs frame₂ memory' grows₂ ⟨outs, slots, others⟩
    refine Meets.pure ⟨memory.size :: outs, ⟨?_, fun i inside => ?_, fun k other out known known' => ?_⟩,
      .cons (grows₂.holds first) others⟩
    · rw [slots.places, Array.size_push, List.length_cons, List.range'_succ]
    · rw [slots.kept i (by rw [Array.size_push]; omega), Array.getElem?_push_lt inside]
      exact (Array.getElem?_eq_getElem inside).symm
    · cases k with
      | zero =>
        cases known
        cases known'
        exact ⟨data, by rw [slots.kept _ (by rw [Array.size_push]; omega), Array.getElem?_push_size], size⟩
      | succ k => exact slots.fresh k other out known known'

def Filled (frame : Frame) (memory : Memory) (block : Nat) (member : Member) (n : Nat) (slot : Ref) : Prop :=
  ∃ out old, frame.Holds slot (.address out 0) ∧ out ≠ block ∧ memory[out]? = some old ∧
    Width.containerBytes member.width ≤ old.size ∧ old.field 0 (8 * Width.containerBytes member.width) = n ∧
    n < 2 ^ member.width

section Outputs

variable {members : List Member} {ports : List (Port × Source)} {before : Memory} {outs : List Nat}
  (slots : Slots members before memory outs)
  (widths : List.Forall₂ (fun member output => member.width = output.1.width) members ports)
include slots widths

theorem slotsRoom {owner : Nat} (known : owner < before.size) : Graph.Outs ports memory owner outs := by
  refine ⟨List.nodup_cons.mpr ⟨fun mem => Nat.not_le_of_lt known (slots.behind owner mem), slots.distinct⟩,
    slots.length.trans widths.length_eq, fun k output out here here' => ?_⟩
  obtain ⟨member, at', width⟩ := Result.forallAt widths.flip here
  obtain ⟨data, there, size⟩ := slots.fresh k member out at' here'
  exact ⟨data, there, Nat.le_of_eq (width ▸ size.symm)⟩

theorem slotsFilled {given values : Nat → Nat} {memory' : Memory} (stored : Graph.Stored ports given values outs memory memory')
    (small : ∀ output ∈ ports, output.2.value given values < 2 ^ output.1.width) {refs : List Ref}
    (points : List.Forall₂ (fun ref out => frame.Holds ref (.address out 0)) refs outs) {target : Nat}
    (known : target < before.size) {j : Nat} {member : Member} {ref : Ref} (here : members[j]? = some member)
    (here' : refs[j]? = some ref) :
    Filled frame memory' target member ((ports.getD j default).2.value given values) ref := by
  obtain ⟨output, at', width⟩ := Result.forallAt widths here
  obtain ⟨out, at'', point⟩ := Result.forallAt points here'
  obtain ⟨old, new, there, there', size, value⟩ := stored.stored j output out at' at''
  obtain ⟨data, there'', room⟩ := slots.fresh j member out here at''
  obtain rfl := Option.some.inj (there''.symm.trans there)
  rw [List.getD_eq_getElem?_getD, at', Option.getD_some]
  refine ⟨out, new, point, fun same => ?_, there', ?_, ?_, width ▸ small output (List.mem_of_getElem? at')⟩
  · exact Nat.not_le_of_lt known (same ▸ slots.behind out (List.mem_of_getElem? at''))
  · exact Nat.le_of_eq (size.trans room).symm
  · rw [width]
    exact value

end Outputs

include fit sized here held in
theorem storeRecordMeets {members : List Member} {slots : List Ref} {number : Nat → Nat} {start : Nat}
    (part : ∀ j, members[j]? = layout.members[start + j]?) (count : slots.length = members.length)
    (filled : ∀ (j : Nat) (member : Member) (slot : Ref), members[j]? = some member → slots[j]? = some slot →
      Filled frame memory block member (number (start + j)) slot) :
    Meets context (fun _ => True) (storeRecord ptr (members.zip slots)) frame memory fun _ _ memory' =>
      memory' = memory.setIfInBounds block (layout.pack number start members data) := by
  induction members generalizing slots start frame memory data with
  | nil => exact Meets.pure (Memory.blockSame here).symm
  | cons member rest ih =>
    cases slots with
    | nil => exact nomatch count
    | cons slot slots =>
      have mem := List.mem_of_getElem? (part 0).symm
      obtain ⟨out, old, points, different, there, room, value, fits⟩ := filled 0 member slot rfl rfl
      rw [List.zip_cons_cons, storeRecord]
      apply Gives.bind (loadGives points there (Int.add_zero _) ((Nat.zero_add _).symm ▸ room) (Width.containerLe _) trivial)
      intro ref frame₁ grows₁ taken
      rw [Nat.mul_zero, value] at taken
      apply Leaves.bind (Record.memberLeaves fit.placed sized mem fit.small here (grows₁.holds held) (fun _ _ => trivial)
        (fit.narrow member mem) taken fits)
      intro frame₂ grows₂
      let data₁ := data.put member.offset (layout.rules.room member.width) (number start)
      have grown := grows₁.trans grows₂
      have next : ∀ j, start + 1 + j = start + (j + 1) := by omega
      have part' : ∀ j, rest[j]? = layout.members[start + 1 + j]? := by
        intro j
        rw [next]
        exact part (j + 1)
      have filled' : ∀ (j : Nat) (other : Member) (slot' : Ref), rest[j]? = some other → slots[j]? = some slot' →
          Filled frame₂ (memory.setIfInBounds block data₁) block other (number (start + 1 + j)) slot' := by
        intro j other slot' at' at''
        obtain ⟨out', old', points', different', there', room', value', fits'⟩ := filled (j + 1) other slot' at' at''
        rw [← Memory.blockOther (Ne.symm different') data₁] at there'
        rw [next]
        exact ⟨out', old', grown.holds points', different', there', room', value', fits'⟩
      refine (ih ((Bytes.putSize _ _ _ _).trans sized) (Memory.blockSet here data₁) (grown.holds held) part'
        (Nat.succ.inj count) filled').mono ?_
      rintro ⟨⟩ _ memory' _ rfl
      exact Array.setIfInBounds_setIfInBounds _

end Members

theorem heldNumbers {record : Record} {refs : List Ref}
    (all : List.Forall₂ (fun member ref => frame.Holds ref (.number (record.value member))) record.layout.members refs) :
    refs.map frame.get = record.numbers.map .number := by
  unfold Record.numbers
  generalize record.layout.members = members at all
  induction all with
  | nil => rfl
  | cons holds _ ih => rw [List.map_cons, List.map_cons, List.map_cons, ih, frame.getHeld holds]

theorem heldAddresses {refs : List Ref} {outs : List Nat}
    (all : List.Forall₂ (fun ref out => frame.Holds ref (.address out 0)) refs outs) :
    refs.map frame.get = outs.map (.address · 0) := by
  induction all with
  | nil => rfl
  | cons holds _ ih => rw [List.map_cons, List.map_cons, ih, frame.getHeld holds]

def slotsOf (count : Nat) : List Nat := List.range' 3 count

def computeArgs (count : Nat) (numbers : List Nat) : List Value :=
  numbers.map .number ++ .address 2 0 :: (slotsOf count).map (.address · 0)

def Stores (context : Context) (callee : Nat) (graph : Graph) (numbers : List Nat) (state : Bytes)
    (given values : Nat → Nat) : Prop :=
  ∀ memory : Memory, memory[2]? = some state → Graph.Outs graph.outputs memory 2 (slotsOf graph.outputs.length) →
    ∃ memory', context.call callee (computeArgs graph.outputs.length numbers) memory = .ok memory' ∧
      Graph.Stored graph.outputs given values (slotsOf graph.outputs.length) memory memory'

section Prologue

def computePrologue (inputs outputs : Layout) : Emit (Ref × List Ref × List Ref) := do
  let input ← Emit.param 0
  let output ← Emit.param 1
  let state ← Emit.param 2
  let args ← loadRecord inputs input
  let slots ← outputs.members.mapM fun member => Emit.slot (Width.containerBytes member.width)
  return (output, slots, args ++ state :: slots)

def updatePrologue (inputs : Layout) : Emit (List Ref) := do
  let input ← Emit.param 0
  let state ← Emit.param 1
  let args ← loadRecord inputs input
  return args ++ [state]

def capturePrologue (inputs : Layout) : Emit (List Ref) := do
  let input ← Emit.param 0
  let state ← Emit.param 1
  let taps ← Emit.param 2
  let args ← loadRecord inputs input
  return args ++ [state, taps]

theorem computeBind (inputs outputs : Layout) (callee : Nat) : computeBody inputs outputs callee =
    computePrologue inputs outputs >>= fun made =>
      Emit.call callee made.2.2 >>= fun _ => storeRecord made.1 (outputs.members.zip made.2.1) := by
  simp only [computeBody, computePrologue, bindAssoc, pureBind]

theorem updateBind (inputs : Layout) (callee : Nat) :
    updateBody inputs callee = updatePrologue inputs >>= Emit.call callee := by
  simp only [updateBody, updatePrologue, bindAssoc, pureBind]

theorem captureBind (inputs : Layout) (callee : Nat) :
    captureBody inputs callee = capturePrologue inputs >>= Emit.call callee := by
  simp only [captureBody, capturePrologue, bindAssoc, pureBind]

variable {inputs outputs : Layout} (fit : inputs.Addressable) {source : Bytes} (sized : source.size = inputs.size)
include fit sized

theorem computePrologueMeets (target state : Bytes) {count : Nat} (full : outputs.members.length = count) :
    Meets context (fun _ => True) (computePrologue inputs outputs)
      (.ofParams [.address 0 0, .address 1 0, .address 2 0]) #[source, target, state] fun made frame memory =>
        frame.Holds made.1 (.address 1 0) ∧ Slots outputs.members #[source, target, state] memory (slotsOf count) ∧
          List.Forall₂ (fun ref out => frame.Holds ref (.address out 0)) made.2.1 (slotsOf count) ∧
            made.2.2.map frame.get = computeArgs count (Record.mk inputs source).numbers := by
  apply Gives.bind (paramGives rfl)
  intro input frame₁ grows₁ input₁
  apply Gives.bind (paramGives (by rw [grows₁.params]; rfl))
  intro output frame₂ grows₂ output₂
  apply Gives.bind (paramGives (by rw [grows₂.params, grows₁.params]; rfl))
  intro owner frame₃ grows₃ owner₃
  apply Meets.bind (loadRecordMeets fit sized rfl (grows₃.holds (grows₂.holds input₁)))
  rintro args frame₄ _ grows₄ ⟨rfl, args₄⟩
  apply Meets.bind (slotsMeet outputs.members)
  rintro refs frame₅ memory₅ grows₅ ⟨outs, slots, refs₅⟩
  obtain rfl : outs = slotsOf count := slots.places.trans (congrArg slotsOf full)
  refine Meets.pure ⟨grows₅.holds (grows₄.holds (grows₃.holds output₂)), slots, refs₅, ?_⟩
  rw [List.map_append, List.map_cons, heldNumbers (args₄.imp fun _ _ holds => grows₅.holds holds), heldAddresses refs₅,
    frame₅.getHeld (grows₅.holds (grows₄.holds owner₃)), computeArgs]

theorem updatePrologueMeets (state : Bytes) :
    Meets context (fun _ => True) (updatePrologue inputs) (.ofParams [.address 0 0, .address 1 0]) #[source, state]
      fun args frame memory => memory = #[source, state] ∧
        args.map frame.get = (Record.mk inputs source).numbers.map .number ++ [.address 1 0] := by
  apply Gives.bind (paramGives rfl)
  intro input frame₁ grows₁ input₁
  apply Gives.bind (paramGives (by rw [grows₁.params]; rfl))
  intro owner frame₂ grows₂ owner₂
  apply Meets.bind (loadRecordMeets fit sized rfl (grows₂.holds input₁))
  rintro args frame₃ _ grows₃ ⟨rfl, args₃⟩
  refine Meets.pure ⟨rfl, ?_⟩
  rw [List.map_append, heldNumbers args₃, List.map_singleton, frame₃.getHeld (grows₃.holds owner₂)]

theorem capturePrologueMeets (state old : Bytes) :
    Meets context (fun _ => True) (capturePrologue inputs) (.ofParams [.address 0 0, .address 1 0, .address 2 0])
      #[source, state, old] fun args frame memory => memory = #[source, state, old] ∧
        args.map frame.get = (Record.mk inputs source).numbers.map .number ++ [.address 1 0, .address 2 0] := by
  apply Gives.bind (paramGives rfl)
  intro input frame₁ grows₁ input₁
  apply Gives.bind (paramGives (by rw [grows₁.params]; rfl))
  intro owner frame₂ grows₂ owner₂
  apply Gives.bind (paramGives (by rw [grows₂.params, grows₁.params]; rfl))
  intro target frame₃ grows₃ target₃
  apply Meets.bind (loadRecordMeets fit sized rfl (grows₃.holds (grows₂.holds input₁)))
  rintro args frame₄ _ grows₄ ⟨rfl, args₄⟩
  refine Meets.pure ⟨rfl, ?_⟩
  rw [List.map_append, heldNumbers args₄, List.map_cons, List.map_singleton,
    frame₄.getHeld (grows₄.holds (grows₃.holds owner₂)), frame₄.getHeld (grows₄.holds target₃)]

end Prologue

section Wraps

variable {engine : Engine} {name : String} {graph : Graph} {inputs outputs : Layout} (fit : inputs.Addressable)
  {source state : Bytes} (sized : source.size = inputs.size)
include fit sized

theorem computeMeets {target : Bytes} (fit' : outputs.Addressable) (sized' : target.size = outputs.size)
    (widths : List.Forall₂ (fun member output => member.width = output.1.width) outputs.members graph.outputs)
    {given values : Nat → Nat} (small : ∀ output ∈ graph.outputs, output.2.value given values < 2 ^ output.1.width)
    {callee : Nat} (stores : Stores context callee graph (Record.mk inputs source).numbers state given values) :
    Meets context (fun _ => True) (computeBody inputs outputs callee)
      (.ofParams [.address 0 0, .address 1 0, .address 2 0]) #[source, target, state] fun _ _ memory' =>
        memory'[1]? = some (outputs.pack (graph.outputNumber given values) 0 outputs.members target) ∧
          memory'[2]? = some state := by
  rw [computeBind]
  apply Meets.bind (computePrologueMeets fit sized target state widths.length_eq)
  rintro ⟨output, refs, args⟩ frame₁ memory₁ - ⟨output₁, slots, refs₁, arguments⟩
  obtain ⟨memory', ran, stored⟩ := stores memory₁ (slots.kept 2 (Nat.lt_succ_self 2))
    (slotsRoom slots widths (Nat.lt_succ_self 2))
  apply Leaves.bind (callLeaves (by rw [arguments]; exact ran))
  intro frame₂ grows₂
  have points := refs₁.imp fun _ _ holds => grows₂.holds holds
  have after : ∀ i < 3, memory'[i]? = (#[source, target, state] : Memory)[i]? := fun i inside =>
    (stored.kept i fun mem => Nat.not_le_of_lt inside (slots.behind i mem)).trans (slots.kept i inside)
  have count : refs.length = outputs.members.length := refs₁.length_eq.trans slots.length
  refine (@storeRecordMeets context frame₂ memory' outputs fit' target sized' output 1 (after 1 (by decide))
    (grows₂.holds output₁) outputs.members refs (graph.outputNumber given values) 0 (fun j => by rw [Nat.zero_add]) count
    fun j member ref known known' => ?_).mono ?_
  · rw [Nat.zero_add]
    exact slotsFilled slots widths stored small points (Nat.succ_lt_succ (Nat.zero_lt_succ 1)) known known'
  · rintro ⟨⟩ _ memory'' _ rfl
    refine ⟨Memory.blockSet (after 1 (by decide)) _, ?_⟩
    rw [Memory.blockOther (by decide) _]
    exact after 2 (by decide)

theorem computeWrapped (wraps : engine.Wraps name (computeBody inputs outputs) graph.computeBody)
    (fit' : outputs.Addressable)
    (widths : List.Forall₂ (fun member output => member.width = output.1.width) outputs.members graph.outputs)
    {target : Bytes} (sized' : target.size = outputs.size) {values : Nat → Nat}
    (computes : graph.ComputesAt 2 (slotsOf graph.outputs.length) (Record.mk inputs source).numbers state values)
    (small : ∀ output ∈ graph.outputs,
      output.2.value (fun k => (Record.mk inputs source).numbers.getD k 0) values < 2 ^ output.1.width) :
    ∃ memory, engine.invoke name [.address 0 0, .address 1 0, .address 2 0] #[source, target, state] = .ok memory ∧
      memory[1]? = some (outputs.pack (graph.outputNumber (fun k => (Record.mk inputs source).numbers.getD k 0) values)
        0 outputs.members target) ∧ memory[2]? = some state := by
  obtain ⟨callee, code, code', emitted, emitted', context, context', invoke, called, -⟩ := wraps
  have stores : Stores context callee graph (Record.mk inputs source).numbers state
      (fun k => (Record.mk inputs source).numbers.getD k 0) values := by
    intro memory here room
    rw [called]
    exact computes code' emitted' context' memory here room
  have meets := computeMeets fit sized fit' sized' widths small stores
  obtain ⟨code'', frame', memory', own, ran, packed⟩ := meets.body
  obtain rfl := Except.ok.inj (emitted.symm.trans own)
  exact ⟨memory', (invoke _ _).trans ran, packed⟩

theorem updateWrapped (wraps : engine.Wraps name (updateBody inputs) graph.updateBody) {state' : Bytes}
    (updates : graph.UpdatesAt 1 (Record.mk inputs source).numbers state state') :
    ∃ memory, engine.invoke name [.address 0 0, .address 1 0] #[source, state] = .ok memory ∧
      memory[1]? = some state' := by
  obtain ⟨callee, code, code', emitted, emitted', context, context', invoke, called, -⟩ := wraps
  let memory : Memory := #[source, state]
  let params : List Value := [.address 0 0, .address 1 0]
  have meets : Meets context (fun _ => True) (updateBody inputs callee) (.ofParams params) memory
      fun _ _ memory' => memory' = memory.setIfInBounds 1 state' := by
    rw [updateBind]
    apply Meets.bind (updatePrologueMeets fit sized state)
    rintro args frame _ - ⟨rfl, arguments⟩
    exact callLeaves (by rw [called, arguments]; exact updates code' emitted' context' memory rfl)
  obtain ⟨code'', frame', memory', own, ran, rfl⟩ := meets.body
  obtain rfl := Except.ok.inj (emitted.symm.trans own)
  have replaced : (memory.setIfInBounds 1 state')[1]? = some state' := Memory.blockSet rfl state'
  exact ⟨_, (invoke params memory).trans ran, replaced⟩

end Wraps

end Wrapper

end CircuitSim
