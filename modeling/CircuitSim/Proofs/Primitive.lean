import CircuitSim.Primitive.Code
import CircuitSim.Primitive.Library
import CircuitSim.Proofs.Element

/-! What primitives mean, without code: the number that an output shows, and the state that an update leaves. The
code of every primitive that the library builds agrees with it and keeps to the primitive's own slice of state,
but for one byte behind it. -/
namespace CircuitSim

/-- The table of the operations, for operands of `width` bits. -/
def BinaryOp.meaning (op : BinaryOp) (width a b : Nat) : Nat :=
  match op with
  | .add => (a + b) % 2 ^ width
  | .sub => (a + (2 ^ width - b)) % 2 ^ width
  | .mul => a * b % 2 ^ width
  | .and => a &&& b
  | .or => a ||| b
  | .xor => a ^^^ b

def CompareOp.meaning (op : CompareOp) (a b : Nat) : Nat :=
  match op with
  | .eq => if a = b then 1 else 0
  | .ne => if a = b then 0 else 1

namespace Primitive
open Emit (bytesLe)

/-- The output that inputs and state determine. A register holds word 0, a memory one word for each address. -/
def result (primitive : Primitive) (input : Nat → Nat) (word : Nat → Nat) : Nat :=
  match primitive with
  | register _ => word 0
  | const _ value => value
  | binary op width => op.meaning width (input 0) (input 1)
  | not width => 2 ^ width - 1 - input 0
  | compare op _ => op.meaning (input 0) (input 1)
  | mux _ => if input 2 = 1 then input 0 else input 1
  | mem _ depth => word (input 3 % depth)

def width (primitive : Primitive) : Nat := primitive.output.2

def cells : Primitive → Nat
  | register _ => 1
  | mem _ depth => depth
  | _ => 0

def word (primitive : Primitive) (data : Bytes) (offset k : Nat) : Nat :=
  data.field (8 * offset + k * primitive.width) primitive.width

def shown (primitive : Primitive) (data : Bytes) (offset : Nat) (input : Nat → Nat) : Nat :=
  primitive.result input (primitive.word data offset)

structure Change where
  start : Nat
  count : Nat
  value : Nat
  deriving DecidableEq, Repr

def change (primitive : Primitive) (offset : Nat) (input : Nat → Nat) : Option Change :=
  match primitive with
  | register width => some ⟨8 * offset, 8 * Width.bytes width, input 0⟩
  | mem width depth =>
    if input 2 = 1 then some ⟨8 * offset + input 0 % depth * width, width, input 1⟩ else none
  | _ => none

def Change.Covers (change : Change) (bit : Nat) : Prop :=
  change.start ≤ bit ∧ bit < change.start + change.count

def advance (primitive : Primitive) (data : Bytes) (offset : Nat) (input : Nat → Nat) : Bytes :=
  match primitive.change offset input with
  | some change => data.put change.start change.count change.value
  | none => data

def Valid : Primitive → Prop
  | const width value => 0 < width ∧ width ≤ 128 ∧ value < 2 ^ width
  | mem width depth => 0 < width ∧ width ≤ 128 ∧ 0 < depth ∧ width * depth < 2 ^ 34 ∧
      Width.packedBytes? width depth = some (Width.bytes (width * depth))
  | register width | binary _ width | not width | compare _ width | mux width => 0 < width ∧ width ≤ 128

def Fits (primitive : Primitive) (input : Nat → Nat) (ks : List Nat) : Prop :=
  ∀ k ∈ ks, ∀ pin, primitive.inputs[k]? = some pin → input k < 2 ^ pin.2

def pins (primitive : Primitive) : List Nat := List.range primitive.inputs.length

theorem widthOk {g : Generator} {width : Nat} (ok : g.width = .ok width) : 0 < width ∧ width ≤ 128 := by
  obtain ⟨value, -, rest⟩ := Result.okBind ok
  split at rest
  · exact nomatch rest
  · obtain ⟨_, checked, done⟩ := Result.okBind rest
    cases done
    exact checkWidth_eq_ok_iff.mp checked

theorem maskLt {width value : Nat} (narrow : width ≤ 128) (le : ¬Width.mask width < value) :
    value < 2 ^ width := by
  have positive := Nat.two_pow_pos width
  unfold Width.mask at le
  split at le
  · have same : width = Width.maxNative := Nat.le_antisymm narrow (by assumption)
    rw [← same] at le
    omega
  · omega

theorem constValid {g : Generator} {primitive : Primitive} (ok : Constructor.const g = .ok primitive) :
    primitive.Valid := by
  obtain ⟨width, hw, rest⟩ := Result.okBind ok
  obtain ⟨value, -, rest⟩ := Result.okBind rest
  obtain ⟨positive, narrow⟩ := widthOk hw
  split at rest
  · exact nomatch rest
  · cases rest
    exact ⟨positive, narrow, maskLt narrow (by assumption)⟩

theorem memValid {g : Generator} {primitive : Primitive} (ok : Constructor.mem g = .ok primitive) :
    primitive.Valid := by
  obtain ⟨width, hw, rest⟩ := Result.okBind ok
  obtain ⟨depth, -, rest⟩ := Result.okBind rest
  obtain ⟨positive, narrow⟩ := widthOk hw
  split at rest
  · exact nomatch rest
  · rename_i some
    split at rest
    · rename_i bytes packed
      split at rest
      · rename_i small
        cases rest
        have count := packed
        unfold Width.packedBytes? at count
        split at count
        · cases count
          refine ⟨positive, narrow, Nat.pos_of_ne_zero some, ?_, packed⟩
          have bits := bytesLe.mp (Nat.le_of_lt_succ small)
          omega
        · exact nomatch count
      · exact nomatch rest
    · exact nomatch rest

theorem sizedValid {make : Nat → Primitive} {g : Generator} {primitive : Primitive}
    (ok : Constructor.sized make g = .ok primitive)
    (valid : ∀ width, 0 < width ∧ width ≤ 128 → (make width).Valid) : primitive.Valid := by
  obtain ⟨width, hw, rfl⟩ := Result.okMap ok
  exact valid width (widthOk hw)

theorem basicValid : ∀ entry ∈ Library.basic, ∀ g primitive, entry.2 g = .ok primitive → primitive.Valid := by
  intro entry mem g primitive ok
  simp only [Library.basic, List.mem_cons, List.not_mem_nil, or_false] at mem
  rcases mem with rfl | rfl | rfl | rfl | rfl | rfl | rfl | rfl | rfl | rfl | rfl | rfl | rfl
  case inr.inl => exact constValid ok
  case inr.inr.inr.inr.inr.inr.inr.inr.inr.inr.inr.inr => exact memValid ok
  all_goals exact sizedValid ok fun _ valid => valid

theorem builtinBasic {kind : String} {make : Constructor} (found : Library.builtin.find? kind = some make) :
    ∃ entry ∈ Library.basic, entry.2 = make := by
  obtain ⟨before, behind, list, -⟩ := List.lookup_eq_some_iff.mp found
  have mem : (kind, make) ∈ Library.builtin.kinds := by simp [list]
  rcases List.mem_append.mp mem with basic | named
  · exact ⟨_, basic, rfl⟩
  · obtain ⟨entry, basic, same⟩ := List.mem_map.mp named
    cases same
    exact ⟨entry, basic, rfl⟩

theorem buildValid {kind place : String} {args : Args} {primitive : Primitive}
    (ok : Library.builtin.build kind args place = .ok primitive) : primitive.Valid := by
  unfold Library.build at ok
  split at ok
  · rename_i make found
    obtain ⟨entry, basic, rfl⟩ := builtinBasic found
    exact basicValid entry basic _ _ ok
  · exact nomatch ok

theorem requireAnywhere {g g' : Generator} {name : String} {n : Nat} (args : g.args = g'.args)
    (ok : g.require name = .ok n) : g'.require name = .ok n := by
  unfold Generator.require at ok ⊢
  rw [args] at ok
  split at ok
  · exact ok
  · exact nomatch ok

theorem widthAnywhere {g other : Generator} {n : Nat} (args : g.args = other.args) (ok : g.width = .ok n) :
    other.width = .ok n := by
  obtain ⟨value, known, rest⟩ := Result.okBind ok
  split at rest
  · exact nomatch rest
  · rename_i small
    obtain ⟨_, checked, done⟩ := Result.okBind rest
    cases done
    rw [Generator.width, requireAnywhere args known]
    have checked' : checkWidth s!"{other.kind} `{other.place}`" n = .ok () :=
      checkWidth_eq_ok_iff.mpr (checkWidth_eq_ok_iff.mp checked)
    simp only [bind, Except.bind, if_neg small, checked']
    rfl

theorem basicAnywhere : ∀ entry ∈ Library.basic, ∀ g g' p, g.args = g'.args → entry.2 g = .ok p → entry.2 g' = .ok p := by
  intro entry mem g g' p args ok
  have sized : ∀ {make : Nat → Primitive}, Constructor.sized make g = .ok p → Constructor.sized make g' = .ok p := by
    intro make ok
    obtain ⟨width, known, rfl⟩ := Result.okMap ok
    rw [Constructor.sized, widthAnywhere args known]
    rfl
  simp only [Library.basic, List.mem_cons, List.not_mem_nil, or_false] at mem
  rcases mem with rfl | rfl | rfl | rfl | rfl | rfl | rfl | rfl | rfl | rfl | rfl | rfl | rfl
  case inr.inl =>
    obtain ⟨width, known, ok⟩ := Result.okBind ok
    obtain ⟨value, read, ok⟩ := Result.okBind ok
    split at ok
    · exact nomatch ok
    · rename_i fits
      simp only [Constructor.const, widthAnywhere args known, requireAnywhere args read, bind, Except.bind, if_neg fits]
      exact ok
  case inr.inr.inr.inr.inr.inr.inr.inr.inr.inr.inr.inr =>
    obtain ⟨width, known, ok⟩ := Result.okBind ok
    obtain ⟨depth, read, ok⟩ := Result.okBind ok
    split at ok
    · exact nomatch ok
    rename_i words
    split at ok
    · rename_i bytes packed
      split at ok
      · rename_i small
        simp only [Constructor.mem, widthAnywhere args known, requireAnywhere args read, bind, Except.bind, if_neg words,
          packed, if_pos small]
        exact ok
      · exact nomatch ok
    · exact nomatch ok
  all_goals exact sized ok

theorem buildAnywhere {kind place : String} {args : Args} {p : Primitive}
    (ok : Library.builtin.build kind args place = .ok p) (place' : String) :
    Library.builtin.build kind args place' = .ok p := by
  cases found : Library.builtin.find? kind with
  | none =>
    rw [Library.build, found] at ok
    exact nomatch ok
  | some make =>
    obtain ⟨entry, basic, rfl⟩ := builtinBasic found
    rw [Library.build, found] at ok ⊢
    exact basicAnywhere entry basic ⟨kind, place, args⟩ ⟨kind, place', args⟩ p rfl ok

theorem buildSame {kind place place' : String} {args : Args} {p p' : Primitive}
    (ok : Library.builtin.build kind args place = .ok p) (ok' : Library.builtin.build kind args place' = .ok p') :
    p = p' := Except.ok.inj ((buildAnywhere ok place').symm.trans ok')

theorem stateBytesMem {width depth : Nat} (valid : (mem width depth).Valid) :
    (mem width depth).stateBytes = Width.bytes (width * depth) := by
  rw [stateBytes, valid.2.2.2.2, Option.getD_some]

theorem addressSmall {depth : Nat} (small : depth < 2 ^ 34) : Width.address depth ≤ 34 := by
  unfold Width.address
  split
  · omega
  · unfold Width.bitLength
    rw [if_neg (by omega)]
    exact Nat.succ_le_of_lt ((Nat.log2_lt (by omega)).mpr (by omega))

structure Slice (frame : Frame) (memory : Memory) (state : Ref) (primitive : Primitive) (block offset : Nat)
    (data : Bytes) : Prop where
  points : frame.Holds state (.address block offset)
  here : memory[block]? = some data
  fits : offset + primitive.stateBytes + 1 ≤ data.size

theorem Slice.grow {frame frame' : Frame} {memory : Memory} {state : Ref} {primitive : Primitive} {block offset : Nat}
    {data : Bytes} (slice : Slice frame memory state primitive block offset data) (grows : frame.Grows frame') :
    Slice frame' memory state primitive block offset data :=
  { slice with points := grows.holds slice.points }

section State

variable {primitive : Primitive} {data : Bytes} {offset : Nat} {input : Nat → Nat}

theorem resultLt (valid : primitive.Valid) (fits : primitive.Fits input primitive.reads) {word : Nat → Nat}
    (wordFits : ∀ k, word k < 2 ^ primitive.width) : primitive.result input word < 2 ^ primitive.width := by
  have positive := Nat.two_pow_pos primitive.width
  cases primitive with
  | register width => exact wordFits 0
  | const width value => exact valid.2.2
  | binary op width =>
    have ha := fits 0 (by simp [reads]) _ rfl
    have hb := fits 1 (by simp [reads]) _ rfl
    cases op with
    | add | sub | mul => exact Nat.mod_lt _ positive
    | and => exact Word.andLt ha
    | or => exact Word.orLt ha hb
    | xor => exact Word.xorLt ha hb
  | not width => exact Nat.lt_of_le_of_lt (Nat.sub_le _ _) (Nat.sub_one_lt positive.ne')
  | compare op width =>
    simp only [result, CompareOp.meaning, Primitive.width, output]
    cases op with
    | eq | ne =>
      simp only
      split <;> decide
  | mux width =>
    simp only [result]
    split
    · exact fits 0 (by simp [reads]) ("lhs", width) rfl
    · exact fits 1 (by simp [reads]) ("rhs", width) rfl
  | mem width depth => exact wordFits _

theorem resultWords (valid : primitive.Valid) {word word' : Nat → Nat}
    (same : ∀ k < primitive.cells, word k = word' k) : primitive.result input word = primitive.result input word' := by
  cases primitive with
  | register width => exact same 0 Nat.zero_lt_one
  | mem width depth => exact same _ (Nat.mod_lt _ valid.2.2.1)
  | const | binary | not | compare | mux => rfl

theorem wordInside (valid : primitive.Valid) {k : Nat} (inside : k < primitive.cells) :
    k * primitive.width + primitive.width ≤ 8 * primitive.stateBytes := by
  cases primitive with
  | register width =>
    obtain rfl : k = 0 := Nat.lt_one_iff.mp inside
    have whole : width ≤ 8 * Width.bytes width := bytesLe.mp (Nat.le_refl _)
    simpa [Primitive.width, output, stateBytes] using whole
  | mem width depth =>
    have bound := @Emit.elementInside width depth k inside
    have whole := bytesLe.mp (Nat.le_refl (Width.bytes (width * depth)))
    rw [stateBytesMem valid]
    exact Nat.le_trans bound whole
  | const | binary | not | compare | mux => cases inside

theorem advanceSize : (primitive.advance data offset input).size = data.size := by
  unfold advance
  split
  · exact data.putSize _ _ _
  · rfl

theorem changeInside (valid : primitive.Valid) {c : Change} (changes : primitive.change offset input = some c) :
    8 * offset ≤ c.start ∧ c.start + c.count ≤ 8 * (offset + primitive.stateBytes) := by
  cases primitive with
  | register width =>
    cases changes
    simp only [stateBytes]
    omega
  | mem width depth =>
    simp only [change] at changes
    split at changes
    · cases changes
      have bound := @Emit.elementInside width _ _ (Nat.mod_lt (input 0) valid.2.2.1)
      rw [stateBytesMem valid]
      simp only [Width.bytes]
      omega
    · cases changes
  | const | binary | not | compare | mux => cases changes

theorem advanceOutside (valid : primitive.Valid) (inside : offset + primitive.stateBytes ≤ data.size) {bit : Nat}
    (free : ∀ c, primitive.change offset input = some c → ¬c.Covers bit) :
    (primitive.advance data offset input).bit bit = data.bit bit := by
  unfold advance
  split
  · rename_i c changes
    have bounds := changeInside valid changes
    rw [Bytes.putBitWithin (by omega)]
    exact if_neg (free c changes)
  · rfl

theorem advanceRegister {width : Nat} (inside : offset + Width.bytes width ≤ data.size) (small : input 0 < 2 ^ width) :
    ((register width).advance data offset input).field (8 * offset) (8 * Width.bytes width) = input 0 := by
  have fit : 8 * offset + 8 * Width.bytes width ≤ 8 * data.size := by omega
  have whole : width ≤ 8 * Width.bytes width := bytesLe.mp (Nat.le_refl _)
  exact Bytes.fieldPut fit (Nat.lt_of_lt_of_le small (Nat.pow_le_pow_right (by decide) whole))

theorem wordsApart {width j k : Nat} (different : j ≠ k) :
    j * width + width ≤ k * width ∨ k * width + width ≤ j * width := by
  rcases Nat.lt_or_gt_of_ne different with before | behind
  · exact .inl (Nat.succ_mul j width ▸ Nat.mul_le_mul_right width before)
  · exact .inr (Nat.succ_mul k width ▸ Nat.mul_le_mul_right width behind)

theorem advanceWord {width depth : Nat} (valid : (mem width depth).Valid)
    (inside : offset + (mem width depth).stateBytes ≤ data.size)
    (fits : (mem width depth).Fits input (mem width depth).pins) (k : Nat) :
    (mem width depth).word ((mem width depth).advance data offset input) offset k =
      if input 2 = 1 ∧ k = input 0 % depth then input 1 else (mem width depth).word data offset k := by
  have bound := @Emit.elementInside width _ _ (Nat.mod_lt (input 0) valid.2.2.1)
  have fit : 8 * offset + input 0 % depth * width + width ≤ 8 * data.size := by
    rw [stateBytesMem valid] at inside
    unfold Width.bytes at inside
    omega
  have read : ∀ buffer, (mem width depth).word buffer offset k = buffer.field (8 * offset + k * width) width :=
    fun _ => rfl
  rw [read, read]
  by_cases enabled : input 2 = 1
  · have written : (mem width depth).advance data offset input =
        data.put (8 * offset + input 0 % depth * width) width (input 1) := by
      simp only [advance, change, if_pos enabled]
    rw [written]
    by_cases same : k = input 0 % depth
    · rw [if_pos ⟨enabled, same⟩, same]
      exact Bytes.fieldPut fit (fits 1 (by simp [pins, inputs]) _ rfl)
    · rw [if_neg fun h => same h.2]
      rcases @wordsApart width k (input 0 % depth) same with before | behind
      · exact Bytes.fieldPutApart fit (.inl (by omega))
      · exact Bytes.fieldPutApart fit (.inr (by omega))
  · have kept : (mem width depth).advance data offset input = data := by
      simp only [advance, change, if_neg enabled]
    rw [kept, if_neg fun h => enabled h.1]

end State

section Code
open Emit

variable {context : Context} {allowed : Access → Prop} {frame : Frame} {memory : Memory} {state : Ref}
  {primitive : Primitive} {block offset : Nat} {data : Bytes} {input : Nat → Nat}

theorem boundedGives {address : Ref} {a depth : Nat} (given : frame.Holds address (.number a))
    (small : a < 2 ^ Width.address depth) (positive : 0 < depth) (near : depth < 2 ^ 34) :
    Gives context allowed (boundedIndex address depth) frame memory (.number (a % depth)) := by
  have few := addressSmall near
  have wide : a < 2 ^ 34 := Nat.lt_of_lt_of_le small (Nat.pow_le_pow_right (by decide) few)
  unfold boundedIndex
  apply Gives.bind (resizeGives given (by decide) small)
  intro index frame' grows held
  rw [Nat.mod_eq_of_lt (by omega)] at held
  split
  · rename_i power
    have below : a < depth := by
      rw [power.2]
      exact small
    rw [Nat.mod_eq_of_lt below]
    exact Meets.pure ⟨rfl, held⟩
  · exact uremGives held (by decide) positive (by omega)

theorem registerLocated {width : Nat} (valid : (register width).Valid)
    (slice : Slice frame memory state (register width) block offset data) :
    Located frame memory state (.bytes 0 width) block offset data := by
  obtain ⟨points, here, fits⟩ := slice
  obtain ⟨positive, narrow⟩ := valid
  refine ⟨points, here, ?_, positive, ?_, rfl, ?_⟩
  · simp only [Placement.bytes]
    omega
  · simp only [Placement.bytes]
    omega
  · simp only [Placement.bytes, stateBytes, Width.bytes] at fits ⊢
    omega

theorem registerSafe {width : Nat} (safe : ∀ access : Access,
      access.Within block offset (offset + (register width).stateBytes + 1) → allowed access) (access : Access)
    (within : access.Within block (offset + (Placement.bytes 0 width).offset / 8)
      (offset + Width.bytes ((Placement.bytes 0 width).offset + (Placement.bytes 0 width).width))) : allowed access := by
  refine safe access (within.widen ?_ ?_)
  · omega
  · simp only [Placement.bytes, stateBytes, Nat.zero_mul, Nat.zero_add]
    omega

theorem memElements {width depth : Nat} (valid : (mem width depth).Valid)
    (slice : Slice frame memory state (mem width depth) block offset data) :
    Elements frame memory state width depth block offset data := by
  obtain ⟨points, here, fits⟩ := slice
  rw [stateBytesMem valid] at fits
  obtain ⟨positive, narrow, -, near, -⟩ := valid
  exact ⟨points, here, positive, narrow, near, fits⟩

theorem depthNear {width depth : Nat} (valid : (mem width depth).Valid) : depth < 2 ^ 34 :=
  Nat.lt_of_le_of_lt (Nat.le_mul_of_pos_left depth valid.1) valid.2.2.2.1

theorem binaryMeaning {op : BinaryOp} {width a b : Nat} (narrow : width ≤ 128) (hb : b < 2 ^ width) :
    Word.binary op width a b = op.meaning width a b := by
  cases op with
  | add => exact Word.addEq narrow a b
  | sub => exact Word.subEq narrow hb
  | mul => exact Word.mulEq narrow a b
  | and | or | xor => rfl

theorem compareMeaning (op : CompareOp) (a b : Nat) : Word.compare op a b = op.meaning a b := by
  cases op with
  | eq | ne => rfl

theorem selectMeaning {sel a b : Nat} (bit : sel < 2 ^ 1) : (if sel = 0 then b else a) = if sel = 1 then a else b := by
  by_cases clear : sel = 0
  · rw [if_pos clear, if_neg (by omega)]
  · rw [if_neg clear, if_pos (by omega)]

variable (valid : primitive.Valid) (slice : Slice frame memory state primitive block offset data)
  (safe : primitive.isStateful = true → ∀ access : Access,
    access.Within block offset (offset + primitive.stateBytes + 1) → allowed access)
  {inputs : List Ref}
include valid slice safe

theorem computeGives (fits : primitive.Fits input primitive.reads)
    (fed : ∀ j k, primitive.reads[j]? = some k → frame.Holds (inputs.getD j 0) (.number (input k))) :
    Gives context allowed (primitive.compute inputs state) frame memory
      (.number (primitive.shown data offset input)) := by
  cases primitive with
  | register width =>
    have loaded : Gives context allowed _ frame memory _ :=
      loadFieldGives (registerLocated valid slice) (registerSafe (safe rfl)) valid.2
    have first : (register width).shown data offset input = data.field (8 * offset) width := by
      simp only [shown, result, word, Nat.zero_mul, Nat.add_zero, Primitive.width, output]
    exact first ▸ loaded
  | const width value => exact constGives valid.2.1 valid.2.2
  | binary op width =>
    have gives : Gives context allowed _ frame memory _ := binaryGives (fed 0 0 rfl) (fed 1 1 rfl) op width
    exact gives.to (congrArg Value.number (binaryMeaning valid.2 (fits 1 (by simp [reads]) _ rfl)))
  | not width => exact notGives (fed 0 0 rfl) valid.2 (fits 0 (by simp [reads]) _ rfl)
  | compare op width =>
    have gives : Gives context allowed _ frame memory _ := compareGives (fed 0 0 rfl) (fed 1 1 rfl) op width
    exact gives.to (congrArg Value.number (compareMeaning op _ _))
  | mux width =>
    have gives : Gives context allowed _ frame memory _ :=
      selectGives (fed 0 0 rfl) (fed 1 1 rfl) (fed 2 2 rfl) width
    exact gives.to (congrArg Value.number (selectMeaning (fits 2 (by simp [reads]) _ rfl)))
  | mem width depth =>
    unfold compute
    apply Gives.bind (boundedGives (fed 0 3 rfl) (fits 3 (by simp [reads]) _ rfl) valid.2.2.1 (depthNear valid))
    intro index frame' grows held
    have inside := safe rfl
    rw [stateBytesMem valid] at inside
    exact loadElementGives (memElements valid (slice.grow grows)) inside held (Nat.mod_lt _ valid.2.2.1)

theorem updateLeaves (fits : primitive.Fits input primitive.pins)
    (fed : ∀ k pin, primitive.inputs[k]? = some pin → frame.Holds (inputs.getD k 0) (.number (input k))) :
    Leaves context allowed (primitive.update inputs state) frame memory
      (memory.setIfInBounds block (primitive.advance data offset input)) := by
  have same := Memory.blockSame slice.here
  cases primitive with
  | register width =>
    have small : input 0 < 2 ^ width := fits 0 (by simp [pins, Primitive.inputs]) _ rfl
    have native := Nat.lt_of_lt_of_le small (Nat.pow_le_pow_right (by decide) valid.2)
    have stored : Leaves context allowed _ frame memory _ :=
      storeFieldLeaves (registerLocated valid slice) (registerSafe (safe rfl)) (fed 0 _ rfl) small native
    rw [storedWidth, if_pos ⟨rfl, rfl, bytesLe.mpr valid.2⟩] at stored
    exact stored
  | mem width depth =>
    have bit : input 2 < 2 ^ 1 := fits 2 (by simp [pins, Primitive.inputs]) _ rfl
    have inside := safe rfl
    rw [stateBytesMem valid] at inside
    have body : Leaves context allowed (boundedIndex (inputs.getD 0 0) depth >>= fun index =>
        storeElement state index width (inputs.getD 1 0)) frame memory
        (memory.setIfInBounds block (data.put (8 * offset + input 0 % depth * width) width (input 1))) := by
      apply Gives.bind (boundedGives (fed 0 _ rfl) (fits 0 (by simp [pins, Primitive.inputs]) _ rfl) valid.2.2.1
        (depthNear valid))
      intro index frame' grows held
      exact storeElementLeaves (memElements valid (slice.grow grows)) inside held (Nat.mod_lt _ valid.2.2.1)
        (grows.holds (fed 1 _ rfl)) (fits 1 (by simp [pins, Primitive.inputs]) _ rfl)
    have branched := branchLeaves (fed 2 _ rfl) body
    by_cases clear : input 2 = 0
    · have unset : ¬input 2 = 1 := by omega
      rw [if_pos clear] at branched
      simp only [advance, change, if_neg unset, same]
      exact branched
    · have set : input 2 = 1 := by omega
      rw [if_neg clear] at branched
      simp only [advance, change, if_pos set]
      exact branched
  | const | binary | not | compare | mux => exact Meets.pure same.symm

end Code

end Primitive

namespace Library

def Sound (library : Library) : Prop :=
  ∀ kind args place primitive, library.build kind args place = .ok primitive → primitive.Valid

theorem builtinSound : builtin.Sound := fun _ _ _ _ ok => Primitive.buildValid ok

/- A library whose constructors are told a place for the sake of their errors only. -/
def Placeless (library : Library) : Prop :=
  ∀ kind args place place' primitive primitive', library.build kind args place = .ok primitive →
    library.build kind args place' = .ok primitive' → primitive = primitive'

theorem builtinPlaceless : builtin.Placeless := fun _ _ _ _ _ _ ok ok' => Primitive.buildSame ok ok'

end Library

end CircuitSim
