import CircuitSim.Proofs.Memory

/-! Copying runs of bits on the host. Reading answers the bytes of the field and writing puts the value, on the
short way for whole bytes as on the long one. -/
namespace CircuitSim
open Bytes

theorem flagTestBit {k : Nat} (h : k < 8) (j : Nat) :
    ((1 : UInt8) <<< UInt8.ofNat k).toNat.testBit j = decide (j = k) := by
  have amount : (UInt8.ofNat k).toNat % 8 = k := by
    rw [UInt8.toNat_ofNat']
    omega
  have one : (1 : UInt8).toNat = 1 := rfl
  rw [UInt8.toNat_shiftLeft, amount, one, Nat.testBit_mod_two_pow, Nat.one_shiftLeft, Nat.testBit_two_pow]
  by_cases same : j = k
  · simp [same, h]
  · simp [same, Ne.symm same]

theorem notTestBit (b : UInt8) {j : Nat} (h : j < 8) : (~~~b).toNat.testBit j = !b.toNat.testBit j := by
  have swap : UInt8.size - 1 - b.toNat = 2 ^ 8 - (b.toNat + 1) := by
    have := b.toNat_lt
    simp only [UInt8.size]
    omega
  rw [UInt8.toNat_not, swap, Nat.testBit_two_pow_sub_succ b.toNat_lt]
  simp [h]

theorem modifyBit {data : Bytes} {place i : Nat} {change : UInt8 → UInt8} (h : i < 8 * data.size) :
    Bytes.bit (data.modify place change) i =
      if i / 8 = place then (change (data.byte place)).toNat.testBit (i % 8) else data.bit i := by
  have inside : i / 8 < data.size := by omega
  rw [bit, byteAt _ (by simpa using inside), Array.getElem_modify]
  split
  · rename_i same
    rw [if_pos same.symm, same, byteAt _ (same ▸ inside)]
  · rename_i other
    rw [if_neg (Ne.symm other), bit, byteAt _ inside]

@[simp] theorem setBitSize (data : Bytes) (i : Nat) (flag : Bool) : (data.setBit i flag).size = data.size := by
  simp [setBit]

theorem setBitBit {data : Bytes} {i : Nat} (flag : Bool) {j : Nat} (h : j < 8 * data.size) :
    (data.setBit i flag).bit j = if j = i then flag else data.bit j := by
  have low : i % 8 < 8 := Nat.mod_lt i (by decide)
  have low' : j % 8 < 8 := Nat.mod_lt j (by decide)
  have same : j = i ↔ j / 8 = i / 8 ∧ j % 8 = i % 8 := by omega
  rw [setBit, modifyBit h]
  by_cases byte : j / 8 = i / 8
  · have old : (data.byte (i / 8)).toNat.testBit (j % 8) = data.bit j := by
      rw [bit, byte]
    rw [if_pos byte]
    simp only [same, byte, true_and]
    cases flag with
    | false =>
      rw [if_neg (by decide), UInt8.toNat_and, Nat.testBit_and, old, notTestBit _ low', flagTestBit low]
      by_cases index : j % 8 = i % 8 <;> simp [index]
    | true =>
      rw [if_pos rfl, UInt8.toNat_or, Nat.testBit_or, old, flagTestBit low]
      by_cases index : j % 8 = i % 8 <;> simp [index]
  · rw [if_neg byte, if_neg (by omega)]

theorem writeShiftedPut {data : Bytes} {offset width : Nat} (fits : offset + width ≤ 8 * data.size)
    (value : Bytes) : writeShifted data offset value width = data.put offset width value.toNat := by
  induction width with
  | zero => rw [writeShifted, putZeroWidth]
  | succ width ih =>
    rw [writeShifted, ih (by omega)]
    apply eqOfBits (by simp)
    intro i hi
    have inside : i < 8 * data.size := by simpa using hi
    rw [setBitBit _ (by simpa using inside), putBit _ _ _ _ inside, putBit _ _ _ _ inside]
    by_cases last : i = offset + width
    · rw [if_pos last, if_pos (by omega), last, Nat.add_sub_cancel_left, toNatTestBit]
    · have same : (offset ≤ i ∧ i < offset + (width + 1)) ↔ (offset ≤ i ∧ i < offset + width) := by omega
      rw [if_neg last]
      simp only [same]

theorem writeAlignedPut {data : Bytes} {start count : Nat} (fits : start + count ≤ data.size) (value : Bytes) :
    writeAligned data start value count = data.put (8 * start) (8 * count) value.toNat := by
  induction count with
  | zero => rw [writeAligned, Nat.mul_zero, putZeroWidth]
  | succ count ih =>
    rw [writeAligned, ih (by omega)]
    apply eqOfBits (by simp)
    intro i hi
    have inside : i < 8 * data.size := by simpa using hi
    rw [Memory.setBit (by simpa using inside), putBit _ _ _ _ inside, putBit _ _ _ _ inside]
    by_cases last : i / 8 = start + count
    · have index : 8 * count + i % 8 = i - 8 * start := by omega
      have low : i % 8 < 8 := Nat.mod_lt i (by decide)
      rw [if_pos last, if_pos (by omega), byteTestBit, index, toNatTestBit]
      simp [low]
    · have same : (8 * start ≤ i ∧ i < 8 * start + 8 * (count + 1)) ↔
          (8 * start ≤ i ∧ i < 8 * start + 8 * count) := by omega
      rw [if_neg last]
      simp only [same]

theorem writeBitsPut {data : Bytes} {offset width : Nat} (fits : offset + width ≤ 8 * data.size)
    (value : Bytes) : writeBits data offset width value = some (data.put offset width value.toNat) := by
  unfold writeBits
  split
  · rename_i none
    rw [none, putZeroWidth]
  · rw [if_neg (by omega)]
    split
    · rename_i aligned
      have start : 8 * (offset / 8) = offset := by omega
      have count : 8 * (width / 8) = width := by omega
      rw [writeAlignedPut (by omega), start, count]
    · rw [writeShiftedPut fits]

theorem readAlignedBit {data : Bytes} {start count i : Nat} (h : i < 8 * count)
    (fits : start + count ≤ data.size) : (readAligned data start count).bit i = data.bit (8 * start + i) := by
  have inside : i / 8 < count := by omega
  have place : (8 * start + i) / 8 = start + i / 8 := by omega
  have index : (8 * start + i) % 8 = i % 8 := by omega
  have size : (readAligned data start count).size = count := by
    simp only [readAligned, Array.size_extract]
    omega
  rw [bit, bit, byteAt _ (by omega), place, index, byteAt data (by omega)]
  simp [readAligned]

theorem readShiftedBit {data : Bytes} {start shift count i : Nat} (pos : 0 < shift) (below : shift < 8)
    (h : i < 8 * count) : (readShifted data start shift count).bit i = data.bit (8 * start + shift + i) := by
  have inside : i / 8 < count := by omega
  have down : (UInt8.ofNat shift).toNat % 8 = shift := by
    rw [UInt8.toNat_ofNat']
    omega
  have up : (UInt8.ofNat (8 - shift)).toNat % 8 = 8 - shift := by
    rw [UInt8.toNat_ofNat']
    omega
  have low : i % 8 < 8 := Nat.mod_lt i (by decide)
  have byte : (readShifted data start shift count).byte (i / 8) =
      (data.byte (start + i / 8) >>> UInt8.ofNat shift) |||
        (data.byte (start + i / 8 + 1) <<< UInt8.ofNat (8 - shift)) := by
    rw [byteAt _ (by simpa [readShifted] using inside)]
    simp [readShifted]
  rw [bit, byte, UInt8.toNat_or, Nat.testBit_or, UInt8.toNat_shiftRight, UInt8.toNat_shiftLeft, down, up,
    Nat.testBit_shiftRight, Nat.testBit_mod_two_pow, Nat.testBit_shiftLeft, byteTestBit, byteTestBit]
  by_cases first : shift + i % 8 < 8
  · have here : 8 * (start + i / 8) + (shift + i % 8) = 8 * start + shift + i := by omega
    have small : ¬i % 8 ≥ 8 - shift := by omega
    simp [first, here, small]
  · have here : 8 * (start + i / 8 + 1) + (i % 8 - (8 - shift)) = 8 * start + shift + i := by omega
    have large : i % 8 ≥ 8 - shift := by omega
    have index : i % 8 - (8 - shift) < 8 := by omega
    simp [first, here, large, index, low]

theorem trimSize (data : Bytes) (width : Nat) : (trim data width).size = data.size := by
  unfold trim
  split <;> simp

theorem trimBit {data : Bytes} {width i : Nat} (size : data.size = Width.bytes width) :
    (trim data width).bit i = (decide (i < width) && data.bit i) := by
  unfold Width.bytes at size
  by_cases inside : i < 8 * data.size
  · unfold trim
    split
    · have whole : i < width := by omega
      simp [whole]
    · rw [modifyBit inside]
      split
      · rename_i last
        have tail : width % 8 < 8 := Nat.mod_lt width (by decide)
        have power : 2 ^ (width % 8) ≤ 2 ^ 7 := Nat.pow_le_pow_right (by decide) (by omega)
        have mask : (UInt8.ofNat (2 ^ (width % 8) - 1)).toNat = 2 ^ (width % 8) - 1 := by
          rw [UInt8.toNat_ofNat', Nat.mod_eq_of_lt (by omega)]
        have same : i % 8 < width % 8 ↔ i < width := by omega
        rw [UInt8.toNat_and, Nat.testBit_and, mask, Nat.testBit_two_pow_sub_one, bit, last]
        simp [same, Bool.and_comm]
      · have whole : i < width := by omega
        simp [whole]
  · rw [bitOutside _ (by rw [trimSize]; omega)]
    have outside : ¬i < width := by omega
    simp [outside]

theorem readBitsBit {data : Bytes} {offset width : Nat} (fits : offset + width ≤ 8 * data.size) :
    ∃ bytes, readBits data offset width = some bytes ∧ bytes.size = Width.bytes width ∧
      ∀ i, bytes.bit i = (decide (i < width) && data.bit (offset + i)) := by
  have covers : width ≤ 8 * Width.bytes width := by
    unfold Width.bytes
    omega
  unfold readBits
  simp only
  split
  · rename_i aligned
    have inside : offset / 8 + Width.bytes width ≤ data.size := by
      unfold Width.bytes
      omega
    have size : (readAligned data (offset / 8) (Width.bytes width)).size = Width.bytes width := by
      simp only [readAligned, Array.size_extract]
      omega
    rw [if_pos inside]
    refine ⟨_, rfl, by rw [trimSize, size], fun i => ?_⟩
    rw [trimBit size]
    by_cases h : i < width
    · have start : 8 * (offset / 8) + i = offset + i := by omega
      rw [readAlignedBit (by omega) inside, start]
    · simp [h]
  · rename_i shifted
    have size : (readShifted data (offset / 8) (offset % 8) (Width.bytes width)).size = Width.bytes width := by
      simp [readShifted]
    refine ⟨_, rfl, by rw [trimSize, size], fun i => ?_⟩
    rw [trimBit size]
    by_cases h : i < width
    · have start : 8 * (offset / 8) + offset % 8 + i = offset + i := by omega
      rw [readShiftedBit (by omega) (Nat.mod_lt _ (by decide)) (by omega), start]
    · simp [h]

theorem readBitsField {data : Bytes} {offset width : Nat} (fits : offset + width ≤ 8 * data.size) :
    ((readBits data offset width).getD #[]).toNat = data.field offset width := by
  obtain ⟨bytes, read, -, bits⟩ := readBitsBit fits
  rw [read, Option.getD_some]
  apply Nat.eq_of_testBit_eq
  intro i
  rw [toNatTestBit, bits, fieldTestBit]

theorem ofNatToNat (count n : Nat) : Bytes.toNat (ofNat count n).toArray = n % 2 ^ (8 * count) := by
  induction count generalizing n with
  | zero => simp [ofNat, Bytes.toNat, Nat.mod_one]
  | succ count ih =>
    have low : n % 256 < 256 := Nat.mod_lt n (by decide)
    have split : Bytes.toNat (ofNat (count + 1) n).toArray =
        n % 256 + 256 * Bytes.toNat (ofNat count (n / 256)).toArray := by
      simp [ofNat, Bytes.toNat]
    rw [split, ih, Nat.mul_add, Nat.add_comm (8 * count), Nat.pow_add]
    exact (Nat.mod_mul).symm

theorem ltBitLength (n : Nat) : n < 2 ^ Width.bitLength n := by
  unfold Width.bitLength
  split
  · rename_i zero
    simp [zero]
  · exact Nat.lt_log2_self

theorem ofNumberToNat (n : Nat) : (ofNumber n).toNat = n := by
  have covers : Width.bitLength n ≤ 8 * Width.bytes (Width.bitLength n) := by
    unfold Width.bytes
    omega
  rw [ofNumber, ofNatToNat]
  exact Nat.mod_eq_of_lt (Nat.lt_of_lt_of_le (ltBitLength n) (Nat.pow_le_pow_right (by decide) covers))

theorem ofWordToNat {n : Nat} (small : n < 2 ^ 64) : (ofWord n).toNat = n := by
  rw [ofWord, ofNatToNat, Nat.mod_eq_of_lt small]

end CircuitSim
