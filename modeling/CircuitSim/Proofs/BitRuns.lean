import CircuitSim.Proofs.Copying

/-! Copying runs of bits is exact. A run is read as the bits of the field and nothing else, writing changes those
bits and no other, and every byte that is written is one of the buffer's. Main statement: `bitsCopied`. -/
namespace CircuitSim
open Bytes

/- Writing bit by bit, where every byte is looked up before it is changed. -/
def writeIndexed (data : Bytes) (offset : Nat) (value : Bytes) : Nat → Option Bytes
  | 0 => some data
  | width + 1 => do
    let before ← writeIndexed data offset value width
    if (offset + width) / 8 < before.size then
      some (before.setBit (offset + width) (value.bit width))
    else
      none

theorem writeIndexedFits {data : Bytes} {offset width : Nat} (fits : offset + width ≤ 8 * data.size) (value : Bytes) :
    writeIndexed data offset value width = some (data.put offset width value.toNat) := by
  rw [← writeShiftedPut fits]
  induction width with
  | zero => rfl
  | succ width ih =>
    have size : (writeShifted data offset value width).size = data.size := by
      rw [writeShiftedPut (by omega), putSize]
    have inside : (offset + width) / 8 < (writeShifted data offset value width).size := by omega
    rw [writeIndexed, ih (by omega), Option.bind_eq_bind, Option.bind_some, if_pos inside, writeShifted]

theorem writeIndexedPast {data : Bytes} {offset width : Nat} (past : 8 * data.size < offset + width)
    (positive : 0 < width) (value : Bytes) : writeIndexed data offset value width = none := by
  obtain ⟨width, rfl⟩ := Nat.exists_eq_add_one_of_ne_zero positive.ne'
  induction width with
  | zero =>
    have outside : ¬(offset + 0) / 8 < data.size := by omega
    rw [writeIndexed, writeIndexed, Option.bind_eq_bind, Option.bind_some, if_neg outside]
  | succ width ih =>
    rw [writeIndexed]
    by_cases before : 8 * data.size < offset + (width + 1)
    · rw [ih before (Nat.succ_pos width)]
      rfl
    · have outside : ¬(offset + (width + 1)) / 8 < (data.put offset (width + 1) value.toNat).size := by
        rw [putSize]
        omega
      rw [writeIndexedFits (by omega), Option.bind_eq_bind, Option.bind_some, if_neg outside]

theorem writeBitsIndexed (data : Bytes) (offset width : Nat) (value : Bytes) :
    writeBits data offset width value = writeIndexed data offset value width := by
  by_cases fits : offset + width ≤ 8 * data.size
  · rw [writeBitsPut fits, writeIndexedFits fits]
  · by_cases empty : width = 0
    · subst empty
      rfl
    · rw [writeIndexedPast (by omega) (by omega), writeBits, if_neg empty, if_pos (by omega)]

theorem writePathsAgree {data : Bytes} {offset width : Nat} (fits : offset + width ≤ 8 * data.size)
    (start : offset % 8 = 0) (whole : width % 8 = 0) (value : Bytes) :
    writeAligned data (offset / 8) value (width / 8) = writeShifted data offset value width := by
  have first : 8 * (offset / 8) = offset := by omega
  have count : 8 * (width / 8) = width := by omega
  rw [writeAlignedPut (by omega), writeShiftedPut fits, first, count]

theorem readPathsAgree {data other : Bytes} {offset start width : Nat} (fits : offset + width ≤ 8 * data.size)
    (fits' : start + width ≤ 8 * other.size) (bits : ∀ j < width, other.bit (start + j) = data.bit (offset + j)) :
    readBits other start width = readBits data offset width := by
  obtain ⟨bytes, read, size, here⟩ := readBitsBit fits
  obtain ⟨bytes', read', size', there⟩ := readBitsBit fits'
  have same : bytes' = bytes := by
    apply eqOfBits (size'.trans size.symm)
    intro i _
    rw [here, there]
    by_cases inside : i < width
    · rw [bits i inside]
    · simp [inside]
  rw [read, read', same]

theorem readBitsToNat {data : Bytes} {offset width : Nat} (fits : offset + width ≤ 8 * data.size) :
    (readBits data offset width).map Bytes.toNat = some (data.field offset width) := by
  obtain ⟨bytes, read, -⟩ := readBitsBit fits
  have number := readBitsField fits
  rw [read, Option.getD_some] at number
  rw [read, Option.map_some, number]

theorem putBack {data bytes : Bytes} {offset width : Nat}
    (bits : ∀ j, bytes.bit j = (decide (j < width) && data.bit (offset + j))) :
    data.put offset width bytes.toNat = data := by
  apply eqOfBits (putSize ..)
  intro i inside
  rw [putSize] at inside
  rw [putBit _ _ _ _ inside]
  split
  · rename_i within
    have index : offset + (i - offset) = i := by omega
    have below : i - offset < width := by omega
    rw [toNatTestBit, bits, index, decide_eq_true below, Bool.true_and]
  · rfl

theorem putApart (data : Bytes) {offset width offset' width' : Nat}
    (apart : ∀ i, offset ≤ i → i < offset + width → ¬(offset' ≤ i ∧ i < offset' + width')) (n n' : Nat) :
    (data.put offset width n).put offset' width' n' = (data.put offset' width' n').put offset width n := by
  by_cases empty : width = 0
  · rw [empty, putZeroWidth, putZeroWidth]
  · by_cases empty' : width' = 0
    · rw [empty', putZeroWidth, putZeroWidth]
    · refine putComm ?_
      have first := apart offset (Nat.le_refl offset) (by omega)
      have first' := apart offset'
      omega

/-- Reading answers the bits of the run and zeros above them, and writing sets them and keeps all others; both have
an answer whenever the run lies in the buffer, and every byte that is looked up on the way is there. -/
theorem bitsCopied {data : Bytes} {offset width : Nat} (fits : offset + width ≤ 8 * data.size) :
    (∃ bytes, readBits data offset width = some bytes ∧ bytes.size = Width.bytes width ∧
      (∀ j, bytes.bit j = (decide (j < width) && data.bit (offset + j))) ∧
      writeBits data offset width bytes = some data) ∧
    (∀ value : Bytes, ∃ written, writeBits data offset width value = some written ∧ written.size = data.size ∧
      (∀ j < width, written.bit (offset + j) = (decide (j < 8 * value.size) && value.bit j)) ∧
      (∀ i, i < offset ∨ offset + width ≤ i → written.bit i = data.bit i) ∧
      (readBits written offset width).map Bytes.toNat = some (value.toNat % 2 ^ width) ∧
      ∀ offset' width' value', offset' + width' ≤ 8 * data.size →
        (∀ i, offset ≤ i → i < offset + width → ¬(offset' ≤ i ∧ i < offset' + width')) →
        ∃ other both, writeBits data offset' width' value' = some other ∧
          writeBits written offset' width' value' = some both ∧ writeBits other offset width value = some both) ∧
    (∀ (other : Bytes) start, start + width ≤ 8 * other.size →
      (∀ j < width, other.bit (start + j) = data.bit (offset + j)) →
      readBits other start width = readBits data offset width) ∧
    (offset % 8 = 0 → width % 8 = 0 → ∀ value,
      writeAligned data (offset / 8) value (width / 8) = writeShifted data offset value width) ∧
    ∀ value, writeIndexed data offset value width = writeBits data offset width value := by
  refine ⟨?_, fun value => ?_, fun other start fits' bits => readPathsAgree fits fits' bits,
    fun start whole value => writePathsAgree fits start whole value,
    fun value => (writeBitsIndexed data offset width value).symm⟩
  · obtain ⟨bytes, read, size, bits⟩ := readBitsBit fits
    exact ⟨bytes, read, size, bits, by rw [writeBitsPut fits, putBack bits]⟩
  · have size : (data.put offset width value.toNat).size = data.size := putSize ..
    refine ⟨_, writeBitsPut fits value, size, fun j below => ?_, fun i outside => ?_, ?_, ?_⟩
    · have within : offset ≤ offset + j ∧ offset + j < offset + width := by omega
      rw [putBitWithin fits, if_pos within, Nat.add_sub_cancel_left, toNatTestBit]
      by_cases short : j < 8 * value.size
      · rw [decide_eq_true short, Bool.true_and]
      · rw [decide_eq_false short, Bool.false_and, bitOutside value (Nat.not_lt.mp short)]
    · have without : ¬(offset ≤ i ∧ i < offset + width) := by omega
      rw [putBitWithin fits, if_neg without]
    · have low : value.toNat % 2 ^ width < 2 ^ width := Nat.mod_lt _ (Nat.two_pow_pos width)
      rw [readBitsToNat (size ▸ fits), putMod, fieldPut fits low]
    · intro offset' width' value' fits' apart
      refine ⟨_, _, writeBitsPut fits' value', writeBitsPut (size ▸ fits') value', ?_⟩
      rw [writeBitsPut (by rwa [putSize]), putApart data apart]

theorem bitsCopiedWitness : 13 + 11 ≤ 8 * Array.size (#[0x12, 0x34, 0x56] : Bytes) ∧
    readBits #[0x12, 0x34, 0x56] 13 11 = some #[0xB1, 0x02] ∧
    (∃ written, writeBits #[0x12, 0x34, 0x56] 13 11 #[0xFF] = some written ∧
      (readBits written 13 11).map Bytes.toNat = some (Bytes.toNat #[0xFF] % 2 ^ 11)) := by
  have fits : 13 + 11 ≤ 8 * Array.size (#[0x12, 0x34, 0x56] : Bytes) := by decide
  obtain ⟨-, writes, -⟩ := bitsCopied fits
  obtain ⟨written, wrote, -, -, -, back, -⟩ := writes #[0xFF]
  exact ⟨fits, by decide +kernel, written, wrote, back⟩

end CircuitSim
