import CircuitSim.Proofs.Copying
import CircuitSim.Proofs.Emitted

/-! Numbers without bits above their width. An operation wraps around in a container, and cuts only where bits above the
width can arise; on operands without such bits it makes the number that the operation makes of integers, reduced to the
width. Loads and stores move exactly their bytes, low byte first. Main statement: `operationsExact`. -/
namespace CircuitSim

open Width (maxNative containerBits)

namespace Word

/- The number of `width` bits that is left of an integer. -/
def reduced (width : Nat) (n : Int) : Nat := (n % (2 ^ width : Nat)).toNat

theorem reducedLt (width : Nat) (n : Int) : reduced width n < 2 ^ width := by
  have positive : (0 : Int) < (2 ^ width : Nat) := Int.natCast_pos.mpr (Nat.two_pow_pos width)
  have below := Int.emod_lt_of_pos n positive
  unfold reduced
  omega

theorem reducedNat (width n : Nat) : reduced width n = n % 2 ^ width := by
  rw [reduced, ← Int.natCast_emod, Int.toNat_natCast]

theorem reducedSmall {width n : Nat} (small : n < 2 ^ width) : reduced width n = n := by
  rw [reducedNat, Nat.mod_eq_of_lt small]

theorem reducedBehind {width m : Nat} {n : Int} (ahead : (m : Int) = n + (2 ^ width : Nat)) :
    reduced width n = m % 2 ^ width := by
  rw [← reducedNat, reduced, reduced, ahead, Int.add_emod_right]

end Word

def BinaryOp.exact (x y : Nat) : BinaryOp → Int
  | add => x + y
  | sub => x - y
  | mul => x * y
  | and => (x &&& y : Nat)
  | or => (x ||| y : Nat)
  | xor => (x ^^^ y : Nat)

theorem Word.binaryExact {op : BinaryOp} {width x y : Nat} (fits : width ≤ maxNative) (hx : x < 2 ^ width)
    (hy : y < 2 ^ width) : binary op width x y = reduced width (op.exact x y) := by
  cases op with
  | add => exact (addEq fits x y).trans (reducedNat width (x + y)).symm
  | sub =>
    have ahead : ((x + (2 ^ width - y) : Nat) : Int) = x - y + (2 ^ width : Nat) := by omega
    exact (subEq fits hy).trans (reducedBehind ahead).symm
  | mul => exact (mulEq fits x y).trans (reducedNat width (x * y)).symm
  | and => exact (reducedSmall (andLt hx)).symm
  | or => exact (reducedSmall (orLt hx hy)).symm
  | xor => exact (reducedSmall (xorLt hx hy)).symm

theorem Word.notExact {width x : Nat} (fits : width ≤ maxNative) (hx : x < 2 ^ width) :
    not width x = reduced width (-1 - x) := by
  have ahead : ((2 ^ width - 1 - x : Nat) : Int) = -1 - x + (2 ^ width : Nat) := by omega
  have small : 2 ^ width - 1 - x < 2 ^ width := by omega
  rw [notEq fits hx, reducedBehind ahead, Nat.mod_eq_of_lt small]

structure Frame.Shows (frame : Frame) (ref : Ref) (width n : Nat) : Prop where
  native : width ≤ maxNative
  holds : frame.Holds ref (.number n)
  small : n < 2 ^ width

inductive Op.Exact (frame : Frame) (memory : Memory) : Op → Nat → Int → Prop
  | const {width : Nat} (native : width ≤ maxNative) (n : Nat) : Exact frame memory (.const width n) width n
  | binary {op : BinaryOp} {width x y : Nat} {a b : Ref} (ha : frame.Shows a width x) (hb : frame.Shows b width y) :
      Exact frame memory (.binary op width a b) width (op.exact x y)
  | not {width x : Nat} {a : Ref} (ha : frame.Shows a width x) : Exact frame memory (.not width a) width (-1 - x)
  | eq {width x y : Nat} {a b : Ref} (ha : frame.Shows a width x) (hb : frame.Shows b width y) :
      Exact frame memory (.compare .eq width a b) 1 (if x = y then 1 else 0)
  | ne {width x y : Nat} {a b : Ref} (ha : frame.Shows a width x) (hb : frame.Shows b width y) :
      Exact frame memory (.compare .ne width a b) 1 (if x ≠ y then 1 else 0)
  | select {width c x y : Nat} {cond a b : Ref} (hc : frame.Shows cond 1 c) (ha : frame.Shows a width x)
      (hb : frame.Shows b width y) : Exact frame memory (.select width cond a b) width (if c = 1 then x else y)
  | shl {width room x n : Nat} {a amount : Ref} (ha : frame.Shows a width x) (hn : frame.Shows amount room n)
      (within : n < containerBits width) : Exact frame memory (.shl width a amount) width (x * 2 ^ n : Nat)
  | lshr {width room x n : Nat} {a amount : Ref} (ha : frame.Shows a width x) (hn : frame.Shows amount room n)
      (within : n < containerBits width) : Exact frame memory (.lshr width a amount) width (x / 2 ^ n : Nat)
  | urem {width x divisor : Nat} {a : Ref} (ha : frame.Shows a width x) (narrow : width ≤ 64) (positive : 0 < divisor)
      (held : divisor < 2 ^ containerBits width) : Exact frame memory (.urem width a divisor) width (x % divisor : Nat)
  | resize {source target x : Nat} {a : Ref} (ha : frame.Shows a source x) (native : target ≤ maxNative) :
      Exact frame memory (.resize a source target) target x
  | load {ptr : Ref} {offset : Int} {bytes block start : Nat} (positive : 0 < bytes) (few : bytes ≤ 16)
      (located : memory.locate (frame.get ptr) offset bytes = .ok (block, start)) :
      Exact frame memory (.load ptr offset bytes) (8 * bytes)
        ((readAligned (memory.getD block #[]) start bytes).toNat : Nat)

/- `count` bytes from `start` on are those of `n`, low byte first, and all others are as before. -/
structure Bytes.Replaced (data data' : Bytes) (start count n : Nat) : Prop where
  fits : start + count ≤ data.size
  size : data'.size = data.size
  value : (readAligned data' start count).toNat = n
  others : ∀ i, i < start ∨ start + count ≤ i → data'.byte i = data.byte i

namespace Bytes

variable {data : Bytes} {start count : Nat} (fits : start + count ≤ data.size)
include fits

theorem readAlignedField : (readAligned data start count).toNat = data.field (8 * start) (8 * count) := by
  have size : (readAligned data start count).size = count := by
    simp only [readAligned, Array.size_extract]
    omega
  apply Nat.eq_of_testBit_eq
  intro i
  rw [toNatTestBit, fieldTestBit]
  by_cases inside : i < 8 * count
  · simp [readAlignedBit inside fits, inside]
  · rw [bitOutside _ (by omega)]
    simp [inside]

theorem putReplaces {n : Nat} (small : n < 2 ^ (8 * count)) :
    data.Replaced (data.put (8 * start) (8 * count) n) start count n := by
  have within : 8 * start + 8 * count ≤ 8 * data.size := by omega
  refine ⟨fits, putSize .., ?_, fun i apart => ?_⟩
  · rw [readAlignedField (by rw [putSize]; exact fits), fieldPut within small]
  · apply UInt8.toNat_inj.mp
    apply Nat.eq_of_testBit_eq
    intro j
    rw [byteTestBit, byteTestBit]
    by_cases low : j < 8
    · rw [putBitWithin within, if_neg (by omega)]
    · simp [low]

end Bytes

section Operations

variable {frame : Frame} {memory : Memory} {op : Op} {width : Nat} {n : Int}

theorem Op.Exact.native (exact : op.Exact frame memory width n) : width ≤ maxNative := by
  cases exact with
  | const native | resize _ native => exact native
  | binary ha | not ha | shl ha | lshr ha | urem ha => exact ha.native
  | select _ ha => exact ha.native
  | eq | ne => decide
  | load _ few =>
    show 8 * _ ≤ 128
    omega

theorem Op.Exact.eval (exact : op.Exact frame memory width n) :
    op.eval frame memory = .ok (.number (Word.reduced width n)) := by
  cases exact with
  | const native m => rw [Op.eval, Word.constEq native, Word.reducedNat]
  | binary ha hb =>
    rw [Op.eval, frame.bitsHeld ha.holds, frame.bitsHeld hb.holds, Word.binaryExact ha.native ha.small hb.small]
  | not ha => rw [Op.eval, frame.bitsHeld ha.holds, Word.notExact ha.native ha.small]
  | eq ha hb =>
    rw [Op.eval, frame.bitsHeld ha.holds, frame.bitsHeld hb.holds, Word.compare]
    split <;> rfl
  | ne ha hb =>
    rw [Op.eval, frame.bitsHeld ha.holds, frame.bitsHeld hb.holds, Word.compare, ite_not]
    split <;> rfl
  | @select _ c _ _ _ _ _ hc ha hb =>
    rw [Op.eval, frame.getHeld ha.holds, frame.getHeld hb.holds, frame.getHeld hc.holds]
    have bit := hc.small
    by_cases set : c = 1
    · subst set
      rw [if_pos rfl, Word.reducedSmall ha.small]
      rfl
    · obtain rfl : c = 0 := by omega
      rw [if_neg set, Word.reducedSmall hb.small]
      rfl
  | shl ha hn within =>
    rw [Op.eval, frame.bitsHeld ha.holds, frame.bitsHeld hn.holds, Word.shlWithin ha.native within, Nat.shiftLeft_eq,
      Word.reducedNat]
  | lshr ha hn within =>
    rw [Op.eval, frame.bitsHeld ha.holds, frame.bitsHeld hn.holds, Word.lshrWithin within, Nat.shiftRight_eq_div_pow,
      Word.reducedSmall (Nat.lt_of_le_of_lt (Nat.div_le_self _ _) ha.small)]
  | urem ha narrow positive held =>
    have nonzero : Word.wrap width _ ≠ 0 := (Nat.mod_eq_of_lt held).trans_ne positive.ne'
    rw [Op.eval, if_neg nonzero, frame.bitsHeld ha.holds, Word.uremWithin held,
      Word.reducedSmall (Nat.lt_of_le_of_lt (Nat.mod_le _ _) ha.small)]
  | resize ha native => rw [Op.eval, frame.bitsHeld ha.holds, Word.resizeEq native ha.small, Word.reducedNat]
  | load positive few located =>
    obtain ⟨data, here, fits⟩ := Memory.locatedFits located positive
    rw [Op.eval, Memory.loadLocated located few, Memory.blockGet here, Bytes.readAlignedField fits,
      Word.reducedSmall (data.fieldLt _ _)]
    rfl

theorem Op.Exact.meets (exact : op.Exact frame memory width n) (context : Context) :
    Emit.Meets context (fun _ => True) (Emit.op op) frame memory fun ref frame' memory' => memory' = memory ∧
      frame'.Shows ref width (Word.reduced width n) := by
  have plain : ∀ bytes, op ≠ .slot bytes := by
    rintro bytes rfl
    cases exact
  apply (Emit.opGives plain exact.eval fun _ _ => trivial).mono
  rintro ref frame' memory' - ⟨same, holds⟩
  exact ⟨same, exact.native, holds, Word.reducedLt width n⟩

theorem Emit.storeReplaces {arg ptr : Ref} {offset : Int} {bytes block start n : Nat} (positive : 0 < bytes)
    (few : bytes ≤ 16) (given : frame.Shows arg (8 * bytes) n)
    (located : memory.locate (frame.get ptr) offset bytes = .ok (block, start)) (context : Context) :
    ∃ data data', memory[block]? = some data ∧ data.Replaced data' start bytes n ∧
      Leaves context (fun _ => True) (Emit.store arg ptr offset bytes) frame memory (memory.setIfInBounds block data') := by
  obtain ⟨data, here, fits⟩ := Memory.locatedFits located positive
  exact ⟨data, data.put (8 * start) (8 * bytes) n, here, Bytes.putReplaces fits given.small,
    storeRuns given.holds (Memory.storeLocated located here fits few n) fun _ _ => trivial⟩

theorem Graph.signalsShown {graph : Graph} (wellFormed : graph.WellFormed) {inputs : Nat → Nat} {data : Bytes}
    (sized : graph.stateBytes < data.size) {block : Nat} (here : memory[block]? = some data) {refs : List Ref} {state : Ref}
    (given : ∀ k port, graph.inputs[k]? = some port →
      ∃ ref, refs[k]? = some ref ∧ frame.Shows ref port.width (inputs k))
    (points : frame.Holds state (.address block 0)) (context : Context) : ∃ values,
      graph.Evaluates inputs (Node.words data) values ∧
      Emit.Meets context (fun _ => True) (graph.signals refs state) frame memory fun signals frame' memory' =>
        memory' = memory ∧ ∀ source width, graph.width? source = some width →
          ∃ ref, signals.get? source = some ref ∧ frame'.Shows ref width (source.value inputs values) := by
  have admits : graph.Admits inputs := by
    intro k port known
    obtain ⟨ref, -, shows⟩ := given k port known
    exact shows.small
  have settled := evaluateSettled wellFormed inputs (Node.words data)
  have held : ∀ k port, graph.inputs[k]? = some port →
      ∃ ref, refs[k]? = some ref ∧ frame.Holds ref (.number (inputs k)) :=
    fun k port known => (given k port known).imp fun _ both => ⟨both.1, both.2.holds⟩
  refine ⟨_, evaluates wellFormed inputs (Node.words data),
    (signalsTraces wellFormed settled admits sized here held points).meets.mono ?_⟩
  rintro signals frame' memory' - ⟨same, carries⟩
  refine ⟨same, fun source width known => ?_⟩
  obtain ⟨ref, got, holds⟩ := carries.source known (readyLast wellFormed.toWired known)
  exact ⟨ref, got, (graph.widthFits wellFormed known).2, holds,
    sourceLt wellFormed (fun node _ => node.wordsLt data) settled admits known⟩

end Operations

/-- On operands without bits above their widths, each operation of emitted code makes the number that is left of the
operation on integers at the width of its result, and that result has no bits above its width either. A load makes the
number in its bytes, low byte first, and a store replaces its bytes and leaves all others, wherever they lie in a block.
So every signal of a circuit stays within its declared width, whatever the inputs and the bytes of the state are. -/
theorem operationsExact (context : Context) (frame : Frame) (memory : Memory) :
    (∀ op width n, Op.Exact frame memory op width n →
      Emit.Meets context (fun _ => True) (Emit.op op) frame memory fun ref frame' memory' => memory' = memory ∧
        frame'.Shows ref width (Word.reduced width n)) ∧
    (∀ (arg ptr : Ref) (offset : Int) (bytes block start n : Nat), 0 < bytes → bytes ≤ 16 → frame.Shows arg (8 * bytes) n →
      memory.locate (frame.get ptr) offset bytes = .ok (block, start) →
      ∃ data data', memory[block]? = some data ∧ data.Replaced data' start bytes n ∧
        Emit.Leaves context (fun _ => True) (Emit.store arg ptr offset bytes) frame memory
          (memory.setIfInBounds block data')) ∧
    (∀ (block start bytes : Nat) (position offset : Int) (data : Bytes), memory[block]? = some data →
      position + offset = start → start + bytes ≤ data.size →
      memory.locate (.address block position) offset bytes = .ok (block, start)) ∧
    ∀ (circuit : Circuit) (library : Library), library.Sound → ∀ (id : Nat) (graph : Graph),
      circuit.flatten library id = .ok graph →
      ∀ (inputs : Nat → Nat) (data : Bytes) (block : Nat) (refs : List Ref) (state : Ref),
        graph.stateBytes < data.size → memory[block]? = some data → frame.Holds state (.address block 0) →
        (∀ k port, graph.inputs[k]? = some port → ∃ ref, refs[k]? = some ref ∧ frame.Shows ref port.width (inputs k)) →
        ∃ values,
        graph.Evaluates inputs (Node.words data) values ∧
        Emit.Meets context (fun _ => True) (graph.signals refs state) frame memory fun signals frame' memory' =>
          memory' = memory ∧ ∀ source width, graph.width? source = some width →
            ∃ ref, signals.get? source = some ref ∧ frame'.Shows ref width (source.value inputs values) := by
  refine ⟨fun op width n exact => exact.meets context, ?_, ?_, ?_⟩
  · intro arg ptr offset bytes block start n positive few given located
    exact Emit.storeReplaces positive few given located context
  · intro block start bytes position offset data here place fits
    exact Memory.locateInside here place fits
  · intro circuit library sound id graph flat inputs data block refs state sized here points given
    obtain ⟨design, of, flattened⟩ := Circuit.flattenOf flat
    exact Graph.signalsShown (flattened.soundWellFormed sound of) sized here given points context

def scratchpadFrame : Frame := ⟨[], #[.number 3, .number 21, .number 1, .address 0 0]⟩

def scratchpadMemory : Memory := #[#[255, 255, 2, 1]]

theorem scratchpadExact : ∃ graph, scratchpad.flatten .builtin 0 = .ok graph ∧
    (Emit.Meets .bare (fun _ => True) (Emit.binary .sub 5 2 1) scratchpadFrame scratchpadMemory
      fun ref frame memory => memory = scratchpadMemory ∧ frame.Shows ref 5 12) ∧
    (Emit.Meets .bare (fun _ => True) (Emit.load 3 1 3) scratchpadFrame scratchpadMemory
      fun ref frame memory => memory = scratchpadMemory ∧ frame.Shows ref 24 66303) ∧
    (∃ data data', scratchpadMemory[0]? = some data ∧ data.Replaced data' 1 3 21 ∧
      Emit.Leaves .bare (fun _ => True) (Emit.store 1 3 1 3) scratchpadFrame scratchpadMemory
        (scratchpadMemory.setIfInBounds 0 data')) ∧
    ∃ values, graph.Evaluates (fun k => [3, 21, 1].getD k 0) (Node.words #[255, 255, 2, 1]) values ∧
      Emit.Meets .bare (fun _ => True) (graph.signals [0, 1, 2] 3) scratchpadFrame scratchpadMemory
        fun signals frame memory => memory = scratchpadMemory ∧ ∀ source width, graph.width? source = some width →
          ∃ ref, signals.get? source = some ref ∧
            frame.Shows ref width (source.value (fun k => [3, 21, 1].getD k 0) values) := by
  let shaped (graph : Graph) : Bool :=
    decide (graph.inputs = [⟨"at", 2⟩, ⟨"word", 5⟩, ⟨"write", 1⟩] ∧ graph.stateBytes = 2)
  obtain ⟨graph, flat, known⟩ := Result.okAny (show (scratchpad.flatten .builtin 0).toOption.any shaped = true by
    decide +kernel)
  obtain ⟨ports, bytes⟩ := of_decide_eq_true known
  obtain ⟨operations, stores, locates, signals⟩ :=
    operationsExact .bare scratchpadFrame scratchpadMemory
  have located : scratchpadMemory.locate (scratchpadFrame.get 3) 1 3 = .ok (0, 1) :=
    locates 0 1 3 0 1 #[255, 255, 2, 1] rfl rfl (by decide)
  have word : scratchpadFrame.Shows 1 5 21 := ⟨by decide, rfl, by decide⟩
  have flag : scratchpadFrame.Shows 2 5 1 := ⟨by decide, rfl, by decide⟩
  refine ⟨graph, flat, operations _ 5 _ (.binary flag word), operations _ 24 66303 ?_, ?_, ?_⟩
  · exact .load (by decide) (by decide) located
  · exact stores 1 3 1 3 0 1 21 (by decide) (by decide) ⟨by decide, rfl, by decide⟩ located
  · refine signals scratchpad .builtin Library.builtinSound 0 graph flat _ _ 0 _ _ ?_ rfl rfl fun k port here => ?_
    · rw [bytes]
      decide
    · rw [ports] at here
      match k, here with
      | 0, rfl | 1, rfl | 2, rfl => exact ⟨_, rfl, by decide, rfl, by decide⟩

end CircuitSim
