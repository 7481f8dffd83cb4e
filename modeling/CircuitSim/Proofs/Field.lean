import CircuitSim.Code.Field
import CircuitSim.Proofs.Execution

/-! Code for bit fields at a fixed place. Loading gives the field and storing puts it, whichever of the three
shapes the code has: whole bytes, a shifted window, or two halves. Only bytes that the field has bits in
are touched. -/
namespace CircuitSim

def Access.Within (access : Access) (block start stop : Nat) : Prop :=
  access.block = block ∧ start ≤ access.start ∧ access.start + access.bytes ≤ stop

theorem Access.Within.widen {access : Access} {block start start' stop stop' : Nat}
    (within : access.Within block start stop) (first : start' ≤ start) (last : stop ≤ stop') :
    access.Within block start' stop' :=
  ⟨within.1, Nat.le_trans first within.2.1, Nat.le_trans within.2.2 last⟩

namespace Emit
open Bytes

theorem byteOffsetEq {bit : Nat} (near : bit < 2 ^ 34) : byteOffset bit = (bit / 8 : Nat) := by
  unfold byteOffset
  rw [Int.bmod_eq_of_le (by omega) (by omega)]
  rfl

theorem bytesLe {bits count : Nat} : Width.bytes bits ≤ count ↔ bits ≤ 8 * count := by
  unfold Width.bytes
  omega

section Window

variable {α : Type} {context : Context} {allowed : Access → Prop} {frame : Frame} {memory : Memory}

theorem windowBind {bits : Nat} (small : bits ≤ 128) (what : String) {next : Nat → Emit α}
    {post : α → Frame → Memory → Prop}
    (rest : Meets context allowed (next (Width.bytes bits)) frame memory post) :
    Meets context allowed (window bits what >>= next) frame memory post := by
  have fits : ¬16 < Width.bytes bits := Nat.not_lt.mpr (bytesLe.mpr (by omega))
  unfold window
  rw [if_neg fits]
  exact (pureBind (Width.bytes bits) next).symm ▸ rest

end Window

/-- A field of a buffer in memory, seen through a pointer to byte `position`. Its width can be counted from any bit
of a byte on. -/
structure Located (frame : Frame) (memory : Memory) (base : Ref) (field : Placement) (block position : Nat)
    (data : Bytes) : Prop where
  held : frame.Holds base (.address block position)
  here : memory[block]? = some data
  near : field.offset + field.width < 2 ^ 34
  positive : 0 < field.width
  counts : field.width + 7 < 2 ^ 32
  storage : field.storage = Width.bytes field.width
  fits : 8 * position + field.offset + field.width ≤ 8 * data.size

namespace Located

variable {frame frame' : Frame} {memory : Memory} {base : Ref} {field : Placement} {block position : Nat}
  {data : Bytes}

theorem grow (located : Located frame memory base field block position data) (grows : frame.Grows frame') :
    Located frame' memory base field block position data :=
  { located with held := grows.holds located.held }

theorem low (located : Located frame memory base field block position data) (wide : tooWide field) :
    Located frame memory base (lowHalf field) block position data := by
  obtain ⟨held, here, near, positive, counts, storage, fits⟩ := located
  have half := wide.2
  constructor <;> try assumption
  all_goals simp only [lowHalf, Width.half, Width.bytes] at half ⊢
  all_goals omega

theorem high (located : Located frame memory base field block position data) (wide : tooWide field) :
    Located frame memory base (highHalf field) block position data := by
  obtain ⟨held, here, near, positive, counts, storage, fits⟩ := located
  have half := wide.2
  constructor <;> try assumption
  all_goals simp only [highHalf, Width.half] at half ⊢
  all_goals omega

theorem put (located : Located frame memory base field block position data) (offset width value : Nat) :
    Located frame (memory.setIfInBounds block (data.put offset width value)) base field block position
      (data.put offset width value) :=
  { located with here := Memory.blockSet located.here _, fits := by simpa using located.fits }

end Located

theorem modSmall {n small large : Nat} (h : n < 2 ^ small) (le : small ≤ large) : n % 2 ^ large = n :=
  Nat.mod_eq_of_lt (Nat.lt_of_lt_of_le h (Nat.pow_le_pow_right (by decide) le))

theorem shiftLeftLt {n bits shift total : Nat} (h : n < 2 ^ bits) (le : bits + shift ≤ total) :
    n <<< shift < 2 ^ total := by
  rw [Nat.shiftLeft_eq]
  calc n * 2 ^ shift < 2 ^ bits * 2 ^ shift := Nat.mul_lt_mul_of_pos_right h (Nat.two_pow_pos shift)
    _ = 2 ^ (bits + shift) := (Nat.pow_add 2 bits shift).symm
    _ ≤ 2 ^ total := Nat.pow_le_pow_right (by decide) le

theorem shiftRightLt {n bits : Nat} (h : n < 2 ^ bits) (shift : Nat) : n >>> shift < 2 ^ bits :=
  Nat.lt_of_le_of_lt (Nat.shiftRight_le n shift) h

section Halves

variable {context : Context} {allowed : Access → Prop} {frame : Frame} {memory : Memory} {width : Nat}
  (wide : 64 < width)
include wide

theorem joinGives (narrow : width ≤ 128) {low high : Ref} {x y : Nat} (hx : frame.Holds low (.number x))
    (hy : frame.Holds high (.number y)) (smallX : x < 2 ^ 64) (smallY : y < 2 ^ (width - 64)) :
    Gives context allowed (joinHalves width low high) frame memory (.number (x ||| y <<< 64)) := by
  unfold joinHalves Width.half
  apply Gives.bind (resizeGives hx narrow smallX)
  intro low' frame₁ grows₁ hx'
  rw [modSmall smallX (by omega)] at hx'
  apply Gives.bind (resizeGives (grows₁.holds hy) narrow smallY)
  intro high' frame₂ grows₂ hy'
  rw [modSmall smallY (by omega)] at hy'
  apply Gives.bind (constGives (by decide) (by decide))
  intro amount frame₃ grows₃ ha
  apply Gives.bind (shlGives (grows₃.holds hy') ha narrow wide)
  intro shifted frame₄ grows₄ hs
  rw [Nat.mod_eq_of_lt (shiftLeftLt smallY (by omega))] at hs
  exact binaryGives (grows₄.holds (grows₃.holds (grows₂.holds hx'))) hs .or width

theorem wideContainer : Width.containerBits width = 128 := by
  unfold Width.containerBits Width.containerBytes
  repeat rw [if_neg (by omega)]

theorem splitMeets {value : Ref} {x : Nat} (hx : frame.Holds value (.number x)) (small : x < 2 ^ width)
    (native : x < 2 ^ 128) :
    Meets context allowed (splitHalves width value) frame memory fun halves frame' memory' => memory' = memory ∧
      frame'.Holds halves.1 (.number (x % 2 ^ 64)) ∧
      frame'.Holds halves.2 (.number (x >>> 64 % 2 ^ (width - 64))) := by
  unfold splitHalves Width.half
  apply Gives.bind (resizeGives hx (by decide) small)
  intro low frame₁ grows₁ hl
  apply Gives.bind (constGives (by decide) (by decide))
  intro amount frame₂ grows₂ ha
  apply Gives.bind (lshrWithinGives (grows₂.holds (grows₁.holds hx)) ha (by rw [wideContainer wide]; decide))
  intro shifted frame₃ grows₃ hs
  apply Gives.bind (resizeNativeGives hs _ (shiftRightLt small 64) (shiftRightLt native 64))
  intro high frame₄ grows₄ hh
  exact Meets.pure ⟨rfl, grows₄.holds (grows₃.holds (grows₂.holds hl)), hh⟩

end Halves

theorem halvesNarrow {field : Placement} (narrow : field.width ≤ 128) :
    ¬tooWide (lowHalf field) ∧ ¬tooWide (highHalf field) := by
  refine ⟨fun again => Nat.lt_irrefl 64 again.2, fun again => ?_⟩
  have more := again.2
  simp only [highHalf, Width.half] at more
  omega

section Wide

variable {allowed : Access → Prop} {field : Placement} {block position : Nat} (wide : tooWide field)
  (safe : ∀ access : Access, access.Within block (position + field.offset / 8)
    (position + Width.bytes (field.offset + field.width)) → allowed access)
include wide

theorem wideUnaligned {frame : Frame} {memory : Memory} {base : Ref} {data : Bytes}
    (located : Located frame memory base field block position data) :
    ¬(field.offset % 8 = 0 ∧ field.storage ≤ 16) := by
  have storage := located.storage
  have past := Nat.lt_of_lt_of_le wide.1 (Width.sum_le _ _)
  unfold Width.maxNative at past
  unfold Width.bytes at storage
  omega

include safe

theorem safeLow (access : Access) (within : access.Within block (position + (lowHalf field).offset / 8)
    (position + Width.bytes ((lowHalf field).offset + (lowHalf field).width))) : allowed access := by
  have half : 64 < field.width := wide.2
  apply safe access (within.widen (Nat.le_refl _) _)
  simp only [lowHalf, Width.half, Width.bytes]
  omega

theorem safeHigh (access : Access) (within : access.Within block (position + (highHalf field).offset / 8)
    (position + Width.bytes ((highHalf field).offset + (highHalf field).width))) : allowed access := by
  have half : 64 < field.width := wide.2
  refine safe access (within.widen ?_ ?_) <;> simp only [highHalf, Width.half, Width.bytes] <;> omega

end Wide

theorem ownBytes {field : Placement} (storage : field.storage = Width.bytes field.width)
    (aligned : field.offset % 8 = 0) : field.offset / 8 + field.storage ≤ Width.bytes (field.offset + field.width) ∧
      field.width ≤ 8 * field.storage := by
  rw [storage, Width.bytes, Width.bytes]
  omega

theorem windowBytes {field : Placement} (shifted : field.offset % 8 + field.width ≤ 128) :
    field.offset / 8 + Width.bytes (field.offset % 8 + field.width) ≤ Width.bytes (field.offset + field.width) ∧
      field.offset % 8 + field.width ≤ 8 * Width.bytes (field.offset % 8 + field.width) ∧
      Width.bytes (field.offset % 8 + field.width) ≤ 16 := by
  unfold Width.bytes
  omega

theorem sumEq {field : Placement} (counts : field.width + 7 < 2 ^ 32) :
    Width.sum (field.offset % 8) field.width = field.offset % 8 + field.width := Width.sum_eq (by omega)

theorem narrowShifted {field : Placement} (counts : field.width + 7 < 2 ^ 32) (narrow : ¬tooWide field) :
    field.offset % 8 + field.width ≤ 128 := by
  simp only [tooWide, sumEq counts, Width.maxNative, Width.half] at narrow
  omega

section Load

variable {context : Context} {allowed : Access → Prop} {frame : Frame} {memory : Memory} {base : Ref}
  {field : Placement} {block position : Nat} {data : Bytes}
  (located : Located frame memory base field block position data)
  (safe : ∀ access : Access, access.Within block (position + field.offset / 8)
    (position + Width.bytes (field.offset + field.width)) → allowed access)
include located safe

theorem loadBytesGives {count : Nat} (small : count ≤ 16)
    (inside : field.offset / 8 + count ≤ Width.bytes (field.offset + field.width)) :
    Gives context allowed (load base (byteOffset field.offset) count) frame memory
      (.number (data.field (8 * (position + field.offset / 8)) (8 * count))) := by
  obtain ⟨held, here, near, positive, counts, storage, fits⟩ := located
  have within : 8 * position + field.offset + field.width ≤ 8 * data.size := fits
  have place : (position : Int) + byteOffset field.offset = (position + field.offset / 8 : Nat) := by
    rw [byteOffsetEq (by omega)]
    rfl
  unfold Width.bytes at inside safe
  exact loadGives held here place (by omega) small (safe _ ⟨rfl, Nat.le_refl _, by simpa using by omega⟩)

theorem loadFieldWhole (width : field.width ≤ 128) (aligned : field.offset % 8 = 0 ∧ field.storage ≤ 16) :
    Gives context allowed (loadField base field) frame memory
      (.number (data.field (8 * position + field.offset) field.width)) := by
  obtain ⟨inside, covers⟩ := ownBytes located.storage aligned.1
  have start : 8 * (position + field.offset / 8) = 8 * position + field.offset := by omega
  rw [loadField]
  simp only [if_pos aligned]
  apply Gives.bind (loadBytesGives located safe aligned.2 inside)
  intro raw frame' grows held
  have small := data.fieldLt (8 * (position + field.offset / 8)) (8 * field.storage)
  rw [Nat.mul_comm field.storage 8]
  exact (resizeGives held width small).to (by rw [data.fieldLow covers, start])

theorem loadFieldWindow (width : field.width ≤ 128) (unaligned : ¬(field.offset % 8 = 0 ∧ field.storage ≤ 16))
    (narrow : ¬tooWide field) :
    Gives context allowed (loadField base field) frame memory
      (.number (data.field (8 * position + field.offset) field.width)) := by
  have shifted := narrowShifted located.counts narrow
  obtain ⟨inside, covers, count⟩ := windowBytes shifted
  have place : 8 * (position + field.offset / 8) + field.offset % 8 = 8 * position + field.offset := by omega
  have shift : field.offset % 8 < 8 := Nat.mod_lt _ (by decide)
  rw [loadField]
  simp only [if_neg unaligned, dif_neg narrow, sumEq located.counts]
  apply windowBind shifted
  apply Gives.bind (loadBytesGives located safe count inside)
  intro raw frame₁ grows₁ hr
  apply Gives.bind (constGives (by decide) (by omega))
  intro amount frame₂ grows₂ ha
  have small := data.fieldLt (8 * (position + field.offset / 8))
    (8 * Width.bytes (field.offset % 8 + field.width))
  rw [Nat.mul_comm (Width.bytes _) 8]
  have positive := located.positive
  apply Gives.bind (lshrGives (grows₂.holds hr) ha (by omega) (by omega))
  intro lowered frame₃ grows₃ hl
  exact (resizeGives hl width (shiftRightLt small _)).to (by rw [data.fieldShift covers, place])

theorem loadFieldNarrow (width : field.width ≤ 128) (narrow : ¬tooWide field) :
    Gives context allowed (loadField base field) frame memory
      (.number (data.field (8 * position + field.offset) field.width)) := by
  by_cases aligned : field.offset % 8 = 0 ∧ field.storage ≤ 16
  · exact loadFieldWhole located safe width aligned
  · exact loadFieldWindow located safe width aligned narrow

theorem loadFieldGives (width : field.width ≤ 128) : Gives context allowed (loadField base field) frame memory
    (.number (data.field (8 * position + field.offset) field.width)) := by
  by_cases wide : tooWide field
  · obtain ⟨unsplitLow, unsplitHigh⟩ := halvesNarrow width
    have lower : (lowHalf field).width ≤ 128 := show 64 ≤ 128 by decide
    have upper : (highHalf field).width ≤ 128 := (Nat.sub_le _ _).trans width
    have half : 64 < field.width := wide.2
    rw [loadField]
    simp only [if_neg (wideUnaligned wide located), dif_pos wide]
    apply Gives.bind (loadFieldNarrow (located.low wide) (safeLow wide safe) lower unsplitLow)
    intro low frame₁ grows₁ hl
    apply Gives.bind (loadFieldNarrow ((located.grow grows₁).high wide) (safeHigh wide safe) upper unsplitHigh)
    intro high frame₂ grows₂ hh
    have whole : 64 + (field.width - 64) = field.width := Nat.add_sub_cancel' (Nat.le_of_lt half)
    have joined := data.fieldJoin (8 * position + field.offset) 64 (field.width - 64)
    rw [whole, Nat.add_assoc] at joined
    exact (joinGives half width (grows₂.holds hl) hh (data.fieldLt _ _) (data.fieldLt _ _)).to
      (congrArg Value.number joined)
  · exact loadFieldNarrow located safe width wide

end Load

theorem maskTestBit {width : Nat} (narrow : width ≤ 128) (i : Nat) :
    (Width.mask width).testBit i = decide (i < width) := by
  have mask : Width.mask width = 2 ^ width - 1 := by
    unfold Width.mask
    split
    · have same : width = Width.maxNative := Nat.le_antisymm narrow (by assumption)
      rw [same]
    · rfl
  rw [mask, Nat.testBit_two_pow_sub_one]

theorem keepMaskTestBit {shift width bits : Nat} (narrow : width ≤ 128) (window : bits ≤ 128) (i : Nat) :
    (keepMask shift width bits).testBit i = (decide (i < bits) && !decide (shift ≤ i ∧ i < shift + width)) := by
  have small : (Width.mask width <<< shift) % 2 ^ 128 < 2 ^ 128 := Nat.mod_lt _ (by decide)
  have swap : 2 ^ 128 - 1 - (Width.mask width <<< shift) % 2 ^ 128 =
      2 ^ 128 - ((Width.mask width <<< shift) % 2 ^ 128 + 1) := by omega
  unfold keepMask
  rw [swap, Nat.testBit_and, Nat.testBit_two_pow_sub_succ small, Nat.testBit_mod_two_pow,
    Nat.testBit_shiftLeft, maskTestBit narrow, maskTestBit window]
  by_cases inside : i < bits
  · have wide : i < 128 := Nat.lt_of_lt_of_le inside window
    have same : (i - shift < width ∧ shift ≤ i) ↔ (shift ≤ i ∧ i < shift + width) := by omega
    simp [inside, wide, ← same, and_comm]
  · simp [inside]

theorem mergeTestBit {data : Bytes} {start shift width bits value : Nat} (narrow : width ≤ 128)
    (window : bits ≤ 128) (small : value < 2 ^ width) {i : Nat} (inside : i < bits) :
    (data.field start bits &&& keepMask shift width bits ||| value <<< shift).testBit i =
      if shift ≤ i ∧ i < shift + width then value.testBit (i - shift) else data.bit (start + i) := by
  rw [Nat.testBit_or, Nat.testBit_and, keepMaskTestBit narrow window, data.fieldTestBit, Nat.testBit_shiftLeft]
  by_cases within : shift ≤ i ∧ i < shift + width
  · simp [within, inside]
  · have outside : (decide (i ≥ shift) && value.testBit (i - shift)) = false := by
      by_cases past : shift ≤ i
      · have high : value < 2 ^ (i - shift) :=
          Nat.lt_of_lt_of_le small (Nat.pow_le_pow_right (by decide) (by omega))
        simp [Nat.testBit_lt_two_pow high]
      · simp [past]
    rw [outside]
    simp [within, inside]

/-- The bits that storing a field sets: an exclusive field on a byte takes its last byte whole, if one access can
store it. -/
def storedWidth (field : Placement) : Nat :=
  if field.offset % 8 = 0 ∧ field.exclusive ∧ field.storage ≤ 16 then 8 * field.storage else field.width

theorem storedHalves {field : Placement} :
    storedWidth (lowHalf field) = 64 ∧ storedWidth (highHalf field) = field.width - 64 := by
  simp [storedWidth, lowHalf, highHalf, Width.half]

theorem storedShared {field : Placement}
    (shared : ¬(field.offset % 8 = 0 ∧ field.storage ≤ 16 ∧ (field.exclusive ∨ field.width % 8 = 0))) :
    storedWidth field = field.width := by
  unfold storedWidth
  rw [if_neg]
  rintro ⟨aligned, own, few⟩
  exact shared ⟨aligned, few, .inl own⟩

section Store

variable {context : Context} {allowed : Access → Prop} {frame : Frame} {memory : Memory} {base value : Ref}
  {field : Placement} {block position v : Nat} {data : Bytes}
  (located : Located frame memory base field block position data)
  (safe : ∀ access : Access, access.Within block (position + field.offset / 8)
    (position + Width.bytes (field.offset + field.width)) → allowed access)
  (given : frame.Holds value (.number v)) (small : v < 2 ^ field.width)
include located safe

theorem storeBytesLeaves {count n : Nat} {arg : Ref} (held : frame.Holds arg (.number n)) (few : count ≤ 16)
    (inside : field.offset / 8 + count ≤ Width.bytes (field.offset + field.width)) :
    Leaves context allowed (store arg base (byteOffset field.offset) count) frame memory
      (memory.setIfInBounds block (data.put (8 * (position + field.offset / 8)) (8 * count) n)) := by
  obtain ⟨based, here, near, positive, counts, storage, fits⟩ := located
  have within : 8 * position + field.offset + field.width ≤ 8 * data.size := fits
  have place : (position : Int) + byteOffset field.offset = (position + field.offset / 8 : Nat) := by
    rw [byteOffsetEq (by omega)]
    rfl
  unfold Width.bytes at inside safe
  exact storeLeaves based here place (by omega) few (safe _ ⟨rfl, Nat.le_refl _, by simpa using by omega⟩) held

include given small

theorem storeFieldWhole (aligned : field.offset % 8 = 0 ∧ field.storage ≤ 16 ∧ (field.exclusive ∨ field.width % 8 = 0)) :
    Leaves context allowed (storeField base field value) frame memory
      (memory.setIfInBounds block (data.put (8 * position + field.offset) (storedWidth field) v)) := by
  obtain ⟨inside, covers⟩ := ownBytes located.storage aligned.1
  have storage := located.storage
  have start : 8 * (position + field.offset / 8) = 8 * position + field.offset := by omega
  have stored : storedWidth field = 8 * field.storage := by
    unfold storedWidth
    split
    · rfl
    · rename_i shared
      have whole := aligned.2.2.resolve_left fun own => shared ⟨aligned.1, own, aligned.2.1⟩
      rw [storage, Width.bytes]
      omega
  rw [storeField]
  simp only [if_pos aligned]
  apply Gives.bind (resizeGives given (by omega) small)
  intro wide frame' grows held
  rw [modSmall small (by omega)] at held
  rw [stored, ← start]
  exact storeBytesLeaves (located.grow grows) safe held aligned.2.1 inside

theorem storeFieldWindow
    (unaligned : ¬(field.offset % 8 = 0 ∧ field.storage ≤ 16 ∧ (field.exclusive ∨ field.width % 8 = 0)))
    (narrow : ¬tooWide field) : Leaves context allowed (storeField base field value) frame memory
      (memory.setIfInBounds block (data.put (8 * position + field.offset) (storedWidth field) v)) := by
  have shifted := narrowShifted located.counts narrow
  obtain ⟨inside, covers, few⟩ := windowBytes shifted
  have width : field.width ≤ 128 := by omega
  have positive := located.positive
  have place : 8 * (position + field.offset / 8) + field.offset % 8 = 8 * position + field.offset := by omega
  rw [storeField]
  simp only [if_neg unaligned, dif_neg narrow, sumEq located.counts]
  apply windowBind shifted
  generalize Width.bytes (field.offset % 8 + field.width) = count at inside covers few
  have window : 8 * count ≤ 128 := by omega
  simp only [Nat.mul_comm count 8]
  apply Gives.bind (loadBytesGives located safe few inside)
  intro old frame₁ grows₁ ho
  have keepSmall : keepMask (field.offset % 8) field.width (8 * count) < 2 ^ (8 * count) := by
    apply Nat.lt_pow_two_of_testBit
    intro i high
    rw [keepMaskTestBit width window]
    simp [Nat.not_lt.mpr high]
  apply Gives.bind (constGives window keepSmall)
  intro keep frame₂ grows₂ hk
  apply Gives.bind (binaryGives (grows₂.holds ho) hk .and (8 * count))
  intro kept frame₃ grows₃ hkept
  have grown := grows₁.trans (grows₂.trans grows₃)
  apply Gives.bind (resizeGives (grown.holds given) window small)
  intro wide frame₄ grows₄ hw
  rw [modSmall small (by omega)] at hw
  apply Gives.bind (constGives (by decide) (by omega))
  intro amount frame₅ grows₅ ha
  apply Gives.bind (shlGives (grows₅.holds hw) ha window (by omega))
  intro placed frame₆ grows₆ hp
  rw [Nat.mod_eq_of_lt (shiftLeftLt small (by omega))] at hp
  apply Gives.bind (binaryGives (grows₆.holds (grows₅.holds (grows₄.holds hkept))) hp .or (8 * count))
  intro merged frame₇ grows₇ hm
  -- the merged window differs from the old one in the field only
  have grown' := grown.trans (grows₄.trans (grows₅.trans (grows₆.trans grows₇)))
  rw [storedShared unaligned, ← place, ← Bytes.putWindow covers fun i hi => mergeTestBit width window small hi]
  exact storeBytesLeaves (located.grow grown') safe hm few inside

theorem storeFieldLeaves (native : v < 2 ^ 128) : Leaves context allowed (storeField base field value) frame memory
    (memory.setIfInBounds block (data.put (8 * position + field.offset) (storedWidth field) v)) := by
  induction field, value using storeField.induct generalizing frame memory data v with
  | case1 field value shift =>
    rename_i whole
    exact storeFieldWhole located safe given small whole
  | case2 field value shift shared wide low =>
    rename_i high
    have half : 64 < field.width := wide.2
    have whole : 64 + (field.width - 64) = field.width := Nat.add_sub_cancel' (Nat.le_of_lt half)
    rw [storeField, if_neg shared, dif_pos wide]
    apply Meets.bind (splitMeets half given small native)
    rintro ⟨low', high'⟩ frame₁ _ grows₁ ⟨rfl, hl, hh⟩
    apply Leaves.bind (low low' ((located.grow grows₁).low wide) (safeLow wide safe) hl (Nat.mod_lt _ (by decide))
      (Nat.lt_of_le_of_lt (Nat.mod_le _ _) native))
    intro frame₂ grows₂
    rw [storedHalves.1]
    have rest := ((located.grow (grows₁.trans grows₂)).high wide).put (8 * position + field.offset) 64 (v % 2 ^ 64)
    have highLeaves : Leaves context _ _ _ _ _ := high high' rest (safeHigh wide safe) (grows₂.holds hh)
      (Nat.mod_lt _ (Nat.two_pow_pos _)) (Nat.lt_of_le_of_lt (Nat.mod_le _ _) (shiftRightLt native 64))
    have start : 8 * position + (highHalf field).offset = 8 * position + field.offset + 64 := rfl
    rw [storedHalves.2, Array.setIfInBounds_setIfInBounds, start, data.putSplit, whole] at highLeaves
    rw [storedShared shared]
    exact highLeaves
  | case3 field value shift shared =>
    rename_i narrow
    exact storeFieldWindow located safe given small shared narrow

end Store

end Emit

end CircuitSim
