import CircuitSim.Code.Element
import CircuitSim.Proofs.Field

/-! Code for elements of bit arrays. An element may start at any bit of its first byte, and its window reaches at
most one byte past the one that holds its last bit. -/
namespace CircuitSim.Emit
open Bytes

structure Shifted (frame : Frame) (memory : Memory) (ptr shift : Ref) (width block position offset : Nat)
    (data : Bytes) : Prop where
  held : frame.Holds ptr (.address block position)
  amount : frame.Holds shift (.number offset)
  inByte : offset < 8
  here : memory[block]? = some data
  positive : 0 < width
  narrow : width ≤ 128
  fits : position + Width.bytes (width + 7) ≤ data.size

namespace Shifted

variable {frame frame' : Frame} {memory : Memory} {ptr shift : Ref} {width block position offset : Nat}
  {data : Bytes}

theorem grow (shifted : Shifted frame memory ptr shift width block position offset data)
    (grows : frame.Grows frame') : Shifted frame' memory ptr shift width block position offset data :=
  { shifted with held := grows.holds shifted.held, amount := grows.holds shifted.amount }

theorem low (shifted : Shifted frame memory ptr shift width block position offset data)
    (wide : ¬fitsWindow width) : Shifted frame memory ptr shift Width.half block position offset data := by
  have half := half_lt_of_not_fitsWindow wide
  have fits := shifted.fits
  simp only [Width.half] at half
  exact { shifted with
    positive := by decide
    narrow := by decide
    fits := by
      simp only [Width.half, Width.bytes] at fits ⊢
      omega }

theorem high (shifted : Shifted frame memory ptr shift width block position offset data)
    (wide : ¬fitsWindow width) {upper : Ref} (held : frame.Holds upper (.address block (position + 8 : Nat))) :
    Shifted frame memory upper shift (width - Width.half) block (position + 8) offset data := by
  have half := half_lt_of_not_fitsWindow wide
  have fits := shifted.fits
  have narrow := shifted.narrow
  simp only [Width.half] at half
  exact { shifted with
    held := held
    positive := Nat.sub_pos_of_lt half
    narrow := by omega
    fits := by
      simp only [Width.half, Width.bytes] at fits ⊢
      omega }

theorem put (shifted : Shifted frame memory ptr shift width block position offset data) (first count value : Nat) :
    Shifted frame (memory.setIfInBounds block (data.put first count value)) ptr shift width block position offset
      (data.put first count value) :=
  { shifted with here := Memory.blockSet shifted.here _, fits := by simpa using shifted.fits }

end Shifted

theorem sumSeven {width : Nat} (narrow : width ≤ 128) : Width.sum width 7 = width + 7 := Width.sum_eq (by omega)

theorem fitsNarrow {width : Nat} (narrow : width ≤ 128) : fitsWindow width ↔ width + 7 ≤ 128 := by
  rw [fitsWindow, sumSeven narrow, Width.maxNative]

theorem halvesFit {width : Nat} (narrow : width ≤ 128) :
    fitsWindow Width.half ∧ fitsWindow (width - Width.half) := by
  rw [fitsNarrow (by decide), fitsNarrow (by omega), Width.half]
  omega

section Halves

variable {allowed : Access → Prop} {width block position : Nat}
  (safe : ∀ access : Access, access.Within block position (position + Width.bytes (width + 7)) → allowed access)
  (wide : ¬fitsWindow width)
include safe wide

theorem lowerSafe (access : Access)
    (within : access.Within block position (position + Width.bytes (Width.half + 7))) : allowed access := by
  have half := half_lt_of_not_fitsWindow wide
  apply safe access (within.widen (Nat.le_refl _) _)
  simp only [Width.half, Width.bytes] at half ⊢
  omega

theorem upperSafe (access : Access) (within : access.Within block (position + 8)
    (position + 8 + Width.bytes (width - Width.half + 7))) : allowed access := by
  have half := half_lt_of_not_fitsWindow wide
  apply safe access (within.widen (Nat.le_add_right _ _) _)
  simp only [Width.half, Width.bytes] at half ⊢
  omega

end Halves

section Windows

variable {context : Context} {allowed : Access → Prop} {frame : Frame} {memory : Memory} {ptr shift : Ref}
  {width block position offset : Nat} {data : Bytes}
  (shifted : Shifted frame memory ptr shift width block position offset data)
  (safe : ∀ access : Access, access.Within block position (position + Width.bytes (width + 7)) → allowed access)
include shifted safe

theorem windowGives (fits : fitsWindow width) :
    Gives context allowed (load ptr 0 (Width.bytes (width + 7))) frame memory
      (.number (data.field (8 * position) (8 * Width.bytes (width + 7)))) := by
  have few : Width.bytes (width + 7) ≤ 16 := bytesLe.mpr ((fitsNarrow shifted.narrow).mp fits)
  have place : (position : Int) + 0 = (position : Nat) := Int.add_zero _
  exact loadGives shifted.held shifted.here place shifted.fits few
    (safe _ ⟨rfl, Nat.le_refl _, Nat.le_refl _⟩)

theorem loadShiftedNarrow (fits : fitsWindow width) :
    Gives context allowed (loadShifted ptr shift width) frame memory
      (.number (data.field (8 * position + offset) width)) := by
  have inByte := shifted.inByte
  have positive := shifted.positive
  have few : Width.bytes (width + 7) ≤ 16 := bytesLe.mpr ((fitsNarrow shifted.narrow).mp fits)
  have covers : offset + width ≤ 8 * Width.bytes (width + 7) := by
    unfold Width.bytes
    omega
  rw [loadShifted, dif_neg (not_not.mpr fits), sumSeven shifted.narrow]
  apply windowBind ((fitsNarrow shifted.narrow).mp fits)
  have loaded : Gives context allowed _ frame memory _ := windowGives shifted safe fits
  generalize Width.bytes (width + 7) = count at few covers loaded
  simp only [Nat.mul_comm count 8]
  apply Gives.bind loaded
  intro raw frame₁ grows₁ hr
  have eight : offset < 2 ^ 64 := by omega
  apply Gives.bind (resizeGives (grows₁.holds shifted.amount) (by omega) eight)
  intro amount frame₂ grows₂ ha
  have small : offset < 2 ^ (8 * count) :=
    Nat.lt_of_lt_of_le (Nat.lt_two_pow_self) (Nat.pow_le_pow_right (by decide) (by omega))
  rw [Nat.mod_eq_of_lt small] at ha
  apply Gives.bind (lshrGives (grows₂.holds hr) ha (by omega) (by omega))
  intro lowered frame₃ grows₃ hl
  have bound := data.fieldLt (8 * position) (8 * count)
  exact (resizeGives hl shifted.narrow (shiftRightLt bound offset)).to (by rw [data.fieldShift covers])

theorem loadShiftedGives : Gives context allowed (loadShifted ptr shift width) frame memory
    (.number (data.field (8 * position + offset) width)) := by
  by_cases fits : fitsWindow width
  · exact loadShiftedNarrow shifted safe fits
  · have half : 64 < width := half_lt_of_not_fitsWindow fits
    obtain ⟨fitsLow, fitsHigh⟩ := halvesFit shifted.narrow
    have whole : 64 + (width - 64) = width := Nat.add_sub_cancel' (Nat.le_of_lt half)
    rw [loadShifted, dif_pos fits]
    apply Gives.bind (loadShiftedNarrow (shifted.low fits) (lowerSafe safe fits) fitsLow)
    intro low frame₁ grows₁ hl
    apply Gives.bind (offsetGives (grows₁.holds shifted.held) (Width.half / 8))
    intro upper frame₂ grows₂ hu
    have behind := (shifted.grow (grows₁.trans grows₂)).high fits hu
    apply Gives.bind (loadShiftedNarrow behind (upperSafe safe fits) fitsHigh)
    intro high frame₃ grows₃ hh
    have joined := data.fieldJoin (8 * position + offset) 64 (width - 64)
    have start : 8 * (position + 8) + offset = 8 * position + offset + 64 := by omega
    rw [start] at hh
    rw [whole] at joined
    exact (joinGives half shifted.narrow ((grows₂.trans grows₃).holds hl) hh (data.fieldLt _ _)
      (data.fieldLt _ _)).to (congrArg Value.number joined)

end Windows

theorem shiftedTestBit {data : Bytes} {start offset width bits value : Nat} (covers : offset + width ≤ bits)
    (small : value < 2 ^ width) {i : Nat} (inside : i < bits) :
    (data.field start bits &&& (2 ^ bits - 1 - (2 ^ width - 1) <<< offset) ||| value <<< offset).testBit i =
      if offset ≤ i ∧ i < offset + width then value.testBit (i - offset) else data.bit (start + i) := by
  have ones : (2 ^ width - 1) <<< offset < 2 ^ bits :=
    shiftLeftLt (Nat.sub_one_lt (Nat.two_pow_pos width).ne') (by omega)
  have swap : 2 ^ bits - 1 - (2 ^ width - 1) <<< offset = 2 ^ bits - ((2 ^ width - 1) <<< offset + 1) := by omega
  rw [swap, Nat.testBit_or, Nat.testBit_and, Nat.testBit_two_pow_sub_succ ones, Nat.testBit_shiftLeft,
    Nat.testBit_two_pow_sub_one, data.fieldTestBit, Nat.testBit_shiftLeft]
  by_cases within : offset ≤ i ∧ i < offset + width
  · have low : i - offset < width := by omega
    simp [inside, within, low]
  · have outside : (decide (i ≥ offset) && value.testBit (i - offset)) = false := by
      by_cases past : offset ≤ i
      · have high : value < 2 ^ (i - offset) :=
          Nat.lt_of_lt_of_le small (Nat.pow_le_pow_right (by decide) (by omega))
        simp [Nat.testBit_lt_two_pow high]
      · simp [past]
    have kept : (decide (i ≥ offset) && decide (i - offset < width)) = false := by
      simp only [Bool.and_eq_false_iff, decide_eq_false_iff_not]
      omega
    rw [outside, kept, if_neg within]
    simp [inside]

section Store

variable {context : Context} {allowed : Access → Prop} {frame : Frame} {memory : Memory} {ptr shift value : Ref}
  {width block position offset v : Nat} {data : Bytes}
  (shifted : Shifted frame memory ptr shift width block position offset data)
  (safe : ∀ access : Access, access.Within block position (position + Width.bytes (width + 7)) → allowed access)
  (given : frame.Holds value (.number v)) (small : v < 2 ^ width)
include shifted safe given small

theorem storeShiftedNarrow (fits : fitsWindow width) : Leaves context allowed (storeShifted ptr shift width value)
    frame memory (memory.setIfInBounds block (data.put (8 * position + offset) width v)) := by
  have inByte := shifted.inByte
  have positive := shifted.positive
  have narrow := shifted.narrow
  have few : Width.bytes (width + 7) ≤ 16 := bytesLe.mpr ((fitsNarrow shifted.narrow).mp fits)
  have covers : offset + width ≤ 8 * Width.bytes (width + 7) := by
    unfold Width.bytes
    omega
  have mask : Width.mask width = 2 ^ width - 1 := by
    unfold Width.mask
    rw [if_neg]
    rw [fitsNarrow narrow] at fits
    simp only [Width.maxNative]
    omega
  rw [storeShifted, dif_neg (not_not.mpr fits), sumSeven narrow]
  apply windowBind ((fitsNarrow narrow).mp fits)
  have loaded : ∀ frame', frame.Grows frame' → Gives context allowed _ frame' memory _ := fun _ grows =>
    windowGives (shifted.grow grows) safe fits
  have inside := shifted.fits
  have stored := fun access within => safe access within
  generalize Width.bytes (width + 7) = count at few covers loaded inside stored
  have bits : 8 * count ≤ 128 := by omega
  simp only [Nat.mul_comm count 8]
  have eight : offset < 2 ^ 64 := by omega
  apply Gives.bind (resizeGives shifted.amount bits eight)
  intro amount frame₁ grows₁ ha
  have low : offset < 2 ^ (8 * count) :=
    Nat.lt_of_lt_of_le (Nat.lt_two_pow_self) (Nat.pow_le_pow_right (by decide) (by omega))
  rw [Nat.mod_eq_of_lt low] at ha
  apply Gives.bind (loaded frame₁ grows₁)
  intro old frame₂ grows₂ ho
  have onesSmall : 2 ^ width - 1 < 2 ^ width := Nat.sub_one_lt (Nat.two_pow_pos width).ne'
  rw [mask]
  apply Gives.bind (constGives bits (Nat.lt_of_lt_of_le onesSmall (Nat.pow_le_pow_right (by decide) (by omega))))
  intro ones frame₃ grows₃ h1
  apply Gives.bind (shlGives h1 ((grows₂.trans grows₃).holds ha) bits (by omega))
  intro clear frame₄ grows₄ hc
  have clearSmall := shiftLeftLt onesSmall (Nat.le_trans (Nat.le_of_eq (Nat.add_comm width offset)) covers)
  rw [Nat.mod_eq_of_lt clearSmall] at hc
  apply Gives.bind (notGives hc bits clearSmall)
  intro keep frame₅ grows₅ hk
  have grown := grows₃.trans (grows₄.trans grows₅)
  apply Gives.bind (binaryGives (grown.holds ho) hk .and (8 * count))
  intro kept frame₆ grows₆ hkept
  have grown' := grows₁.trans (grows₂.trans (grown.trans grows₆))
  apply Gives.bind (resizeGives (grown'.holds given) bits small)
  intro wide frame₇ grows₇ hw
  rw [modSmall small (by omega)] at hw
  have carried := grows₂.trans (grown.trans (grows₆.trans grows₇))
  apply Gives.bind (shlGives hw (carried.holds ha) bits (by omega))
  intro placed frame₈ grows₈ hp
  rw [Nat.mod_eq_of_lt (shiftLeftLt small (by omega))] at hp
  apply Gives.bind (binaryGives ((grows₇.trans grows₈).holds hkept) hp .or (8 * count))
  intro merged frame₉ grows₉ hm
  have whole := grown'.trans (grows₇.trans (grows₈.trans grows₉))
  have place : (position : Int) + 0 = (position : Nat) := Int.add_zero _
  rw [← Bytes.putWindow covers fun i hi => shiftedTestBit covers small hi]
  exact storeLeaves (whole.holds shifted.held) shifted.here place inside few
    (stored _ ⟨rfl, Nat.le_refl _, Nat.le_refl _⟩) hm

theorem storeShiftedLeaves : Leaves context allowed (storeShifted ptr shift width value) frame memory
    (memory.setIfInBounds block (data.put (8 * position + offset) width v)) := by
  by_cases fits : fitsWindow width
  · exact storeShiftedNarrow shifted safe given small fits
  · have half : 64 < width := half_lt_of_not_fitsWindow fits
    obtain ⟨fitsLow, fitsHigh⟩ := halvesFit shifted.narrow
    have whole : 64 + (width - 64) = width := Nat.add_sub_cancel' (Nat.le_of_lt half)
    rw [storeShifted, dif_pos fits]
    have native := Nat.lt_of_lt_of_le small (Nat.pow_le_pow_right (by decide) shifted.narrow)
    apply Meets.bind (splitMeets half given small native)
    rintro ⟨low, high⟩ frame₁ _ grows₁ ⟨rfl, hl, hh⟩
    apply Leaves.bind (storeShiftedNarrow ((shifted.grow grows₁).low fits) (lowerSafe safe fits) hl
      (Nat.mod_lt _ (by decide)) fitsLow)
    intro frame₂ grows₂
    apply Gives.bind (offsetGives ((grows₁.trans grows₂).holds shifted.held) (Width.half / 8))
    intro upper frame₃ grows₃ hu
    have grown := grows₁.trans (grows₂.trans grows₃)
    have behind := ((shifted.grow grown).high fits hu).put (8 * position + offset) 64 (v % 2 ^ 64)
    have highLeaves : Leaves context _ _ _ _ _ := storeShiftedNarrow behind (upperSafe safe fits)
      ((grows₂.trans grows₃).holds hh) (Nat.mod_lt _ (Nat.two_pow_pos _)) fitsHigh
    have start : 8 * (position + 8) + offset = 8 * position + offset + 64 := by omega
    have halves := @putSplit data (8 * position + offset) 64 (width - 64) v
    rw [whole] at halves
    rw [start, Array.setIfInBounds_setIfInBounds] at highLeaves
    rw [← halves]
    exact highLeaves

end Store

structure Elements (frame : Frame) (memory : Memory) (base : Ref) (width count block position : Nat)
    (data : Bytes) : Prop where
  held : frame.Holds base (.address block position)
  here : memory[block]? = some data
  positive : 0 < width
  narrow : width ≤ 128
  near : width * count < 2 ^ 34
  fits : position + Width.bytes (width * count) + 1 ≤ data.size

theorem elementInside {width count k : Nat} (inside : k < count) : k * width + width ≤ width * count := by
  rw [← Nat.succ_mul, Nat.mul_comm width count]
  exact Nat.mul_le_mul_right width inside

section Elements

variable {context : Context} {allowed : Access → Prop} {frame : Frame} {memory : Memory} {base index value : Ref}
  {width count block position k v : Nat} {data : Bytes}
  (elements : Elements frame memory base width count block position data)
  (safe : ∀ access : Access,
    access.Within block position (position + Width.bytes (width * count) + 1) → allowed access)
  (held : frame.Holds index (.number k)) (inside : k < count)
include elements held inside

theorem distanceGives {frame' : Frame} {factor : Nat} (grows : frame.Grows frame') {stride : Ref}
    (holds : frame'.Holds stride (.number factor)) (le : factor ≤ width) :
    Gives context allowed (binary .mul 64 index stride) frame' memory (.number (k * factor)) := by
  have bound := @elementInside width count k inside
  have near := elements.near
  have less : k * factor ≤ k * width := Nat.mul_le_mul_left k le
  have value : Word.binary .mul 64 k factor = k * factor := by
    rw [Word.mulEq (by decide), Nat.mod_eq_of_lt (by omega)]
  exact (binaryGives (grows.holds held) holds .mul 64).to (congrArg Value.number value)

theorem wholeAddress (whole : width % 8 = 0) :
    Meets context allowed (elementAddress base index width) frame memory fun place frame' memory' =>
      memory' = memory ∧ place.2 = none ∧
        frame'.Holds place.1 (.address block (position + k * (width / 8) : Nat)) := by
  have bound := @elementInside width count k inside
  have near := elements.near
  have narrow := elements.narrow
  have less : k * (width / 8) ≤ k * width := Nat.mul_le_mul_left k (Nat.div_le_self width 8)
  unfold elementAddress
  rw [if_pos whole]
  apply Gives.bind (constGives (by decide) (by omega))
  intro stride frame₁ grows₁ hs
  apply Gives.bind (distanceGives elements held inside grows₁ hs (Nat.div_le_self width 8))
  intro distance frame₂ grows₂ hd
  apply Gives.bind (indexGives ((grows₁.trans grows₂).holds elements.held) hd (by omega))
  intro ptr frame₃ grows₃ hp
  exact Meets.pure ⟨rfl, rfl, hp⟩

theorem shiftedAddress (partly : width % 8 ≠ 0) :
    Meets context allowed (elementAddress base index width) frame memory fun place frame' memory' =>
      memory' = memory ∧ ∃ shift, place.2 = some shift ∧
        Shifted frame' memory place.1 shift width block (position + k * width / 8) (k * width % 8) data := by
  have bound := @elementInside width count k inside
  have near := elements.near
  have narrow := elements.narrow
  have fits := elements.fits
  unfold elementAddress
  rw [if_neg partly]
  apply Gives.bind (constGives (by decide) (by omega))
  intro stride frame₁ grows₁ hs
  apply Gives.bind (distanceGives elements held inside grows₁ hs (Nat.le_refl width))
  intro bit frame₂ grows₂ hb
  apply Gives.bind (constGives (by decide) (by decide))
  intro three frame₃ grows₃ h3
  apply Gives.bind (lshrGives (grows₃.holds hb) h3 (by decide) (by decide))
  intro byte frame₄ grows₄ hq
  apply Gives.bind (constGives (by decide) (by decide))
  intro seven frame₅ grows₅ h7
  have grown := grows₃.trans (grows₄.trans grows₅)
  have low : Word.binary .and 64 (k * width) 7 = k * width % 8 := Nat.and_two_pow_sub_one_eq_mod (k * width) 3
  apply Gives.bind ((binaryGives (grown.holds hb) h7 .and 64).to (congrArg Value.number low))
  intro shift frame₆ grows₆ hr
  have upper : (k * width) >>> 3 = k * width / 8 := Nat.shiftRight_eq_div_pow (k * width) 3
  rw [upper] at hq
  have whole := grows₁.trans (grows₂.trans (grown.trans grows₆))
  apply Gives.bind (indexGives (whole.holds elements.held) ((grows₅.trans grows₆).holds hq) (by omega))
  intro ptr frame₇ grows₇ hp
  refine Meets.pure ⟨rfl, shift, rfl, hp, grows₇.holds hr, Nat.mod_lt _ (by decide), elements.here,
    elements.positive, narrow, ?_⟩
  unfold Width.bytes at fits ⊢
  omega

omit elements held in
include safe in
theorem shiftedSafe (access : Access) (within : access.Within block (position + k * width / 8)
    (position + k * width / 8 + Width.bytes (width + 7))) : allowed access := by
  have bound := @elementInside width count k inside
  apply safe access (within.widen (Nat.le_add_right _ _) _)
  unfold Width.bytes
  omega

omit held in
theorem wholeInside (whole : width % 8 = 0) : k * (width / 8) * 8 = k * width ∧
    position + k * (width / 8) + width / 8 + 1 ≤ data.size ∧
    k * (width / 8) + width / 8 ≤ Width.bytes (width * count) := by
  have bound := @elementInside width count k inside
  have fits := elements.fits
  have same : k * (width / 8) * 8 = k * width := by
    rw [Nat.mul_assoc, Nat.div_mul_cancel (Nat.dvd_of_mod_eq_zero whole)]
  unfold Width.bytes at fits ⊢
  omega

include safe

theorem loadElementGives : Gives context allowed (loadElement base index width) frame memory
    (.number (data.field (8 * position + k * width) width)) := by
  have narrow := elements.narrow
  unfold loadElement
  by_cases whole : width % 8 = 0
  · apply Meets.bind (wholeAddress elements held inside whole)
    rintro ⟨ptr, shift⟩ frame' _ grows ⟨rfl, none, hp⟩
    cases none
    obtain ⟨start, fits, within⟩ := wholeInside elements inside whole
    have bits : 8 * (width / 8) = width := Nat.mul_div_cancel' (Nat.dvd_of_mod_eq_zero whole)
    have first : 8 * (position + k * (width / 8)) = 8 * position + k * width := by omega
    have loaded : Gives context allowed _ _ _ _ := loadGives hp elements.here (Int.add_zero _)
      (by omega : position + k * (width / 8) + width / 8 ≤ data.size) (by omega)
      (safe _ ⟨rfl, Nat.le_add_right _ _, by simpa using by omega⟩)
    rw [first, bits] at loaded
    exact loaded
  · apply Meets.bind (shiftedAddress elements held inside whole)
    rintro ⟨ptr, _⟩ frame' _ grows ⟨rfl, shift, rfl, shifted⟩
    have first : 8 * (position + k * width / 8) + k * width % 8 = 8 * position + k * width := by omega
    have loaded : Gives context allowed _ _ _ _ := loadShiftedGives shifted (shiftedSafe safe inside)
    rw [first] at loaded
    exact loaded

theorem storeElementLeaves (given : frame.Holds value (.number v)) (small : v < 2 ^ width) :
    Leaves context allowed (storeElement base index width value) frame memory
      (memory.setIfInBounds block (data.put (8 * position + k * width) width v)) := by
  have narrow := elements.narrow
  unfold storeElement
  by_cases whole : width % 8 = 0
  · apply Meets.bind (wholeAddress elements held inside whole)
    rintro ⟨ptr, shift⟩ frame' _ grows ⟨rfl, none, hp⟩
    cases none
    obtain ⟨start, fits, within⟩ := wholeInside elements inside whole
    have bits : 8 * (width / 8) = width := Nat.mul_div_cancel' (Nat.dvd_of_mod_eq_zero whole)
    have first : 8 * (position + k * (width / 8)) = 8 * position + k * width := by omega
    have stored : Leaves context allowed _ _ _ _ := storeLeaves hp elements.here (Int.add_zero _)
      (by omega : position + k * (width / 8) + width / 8 ≤ data.size) (by omega)
      (safe _ ⟨rfl, Nat.le_add_right _ _, by simpa using by omega⟩) (grows.holds given)
    rw [first, bits] at stored
    exact stored
  · apply Meets.bind (shiftedAddress elements held inside whole)
    rintro ⟨ptr, _⟩ frame' _ grows ⟨rfl, shift, rfl, shifted⟩
    have first : 8 * (position + k * width / 8) + k * width % 8 = 8 * position + k * width := by omega
    have stored : Leaves context allowed _ _ _ _ := storeShiftedLeaves shifted (shiftedSafe safe inside)
      (grows.holds given) small
    rw [first] at stored
    exact stored

end Elements

end CircuitSim.Emit
