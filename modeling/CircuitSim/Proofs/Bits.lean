import CircuitSim.Code.Memory
import Mathlib.Data.Nat.Bitwise
import Mathlib.Tactic.Common

/-! Buffers seen bit by bit. `field` is the number in a run of bits and `put` replaces a run; a buffer is
determined by its size and its bits. Words in memory, and the runs that the host copies, are both
such fields. -/
namespace CircuitSim

namespace Bytes

def field (data : Bytes) (offset width : Nat) : Nat := (data.toNat >>> offset) % 2 ^ width

def ofBits (size : Nat) (bits : Nat → Bool) : Bytes :=
  Array.ofFn fun i : Fin size => UInt8.ofNat (Nat.ofBits fun j : Fin 8 => bits (8 * i.val + j.val))

def put (data : Bytes) (offset width value : Nat) : Bytes :=
  ofBits data.size fun i =>
    if offset ≤ i ∧ i < offset + width then value.testBit (i - offset) else data.bit i

theorem byteAt (data : Bytes) {i : Nat} (h : i < data.size) : data.byte i = data[i] := by
  simp [byte, Array.getD, h]

theorem byteOutside (data : Bytes) {i : Nat} (h : data.size ≤ i) : data.byte i = 0 := by
  simp [byte, Array.getD, Nat.not_lt.mpr h]

theorem byteTestBit (data : Bytes) (i j : Nat) :
    (data.byte i).toNat.testBit j = (decide (j < 8) && data.bit (8 * i + j)) := by
  by_cases h : j < 8
  · have hd : (8 * i + j) / 8 = i := by omega
    have hm : (8 * i + j) % 8 = j := by omega
    simp [bit, h, hd, hm]
  · have small : (data.byte i).toNat < 2 ^ j :=
      Nat.lt_of_lt_of_le (data.byte i).toNat_lt (Nat.pow_le_pow_right (by decide) (Nat.not_lt.mp h))
    simp [h, Nat.testBit_lt_two_pow small]

theorem bitOutside (data : Bytes) {i : Nat} (h : 8 * data.size ≤ i) : data.bit i = false := by
  have hb : data.size ≤ i / 8 := by omega
  simp [bit, byteOutside data hb]

theorem eqOfBits {a b : Bytes} (size : a.size = b.size) (bits : ∀ i < 8 * a.size, a.bit i = b.bit i) :
    a = b := by
  apply Array.ext size
  intro i ha hb
  rw [← byteAt a ha, ← byteAt b hb]
  apply UInt8.toNat_inj.mp
  apply Nat.eq_of_testBit_eq
  intro j
  rw [byteTestBit, byteTestBit]
  by_cases h : j < 8
  · rw [bits (8 * i + j) (by omega)]
  · simp [h]

@[simp] theorem ofBitsSize (size : Nat) (bits : Nat → Bool) : (ofBits size bits).size = size := by
  simp [ofBits]

theorem ofBitsBit {size : Nat} (bits : Nat → Bool) {i : Nat} (h : i < 8 * size) :
    (ofBits size bits).bit i = bits i := by
  have hs : i / 8 < size := by omega
  have hj : i % 8 < 8 := Nat.mod_lt _ (by decide)
  have hi : 8 * (i / 8) + i % 8 = i := Nat.div_add_mod i 8
  have small : Nat.ofBits (fun j : Fin 8 => bits (8 * (i / 8) + j.val)) < 2 ^ 8 := Nat.ofBits_lt_two_pow _
  rw [bit, byteAt _ (by simpa using hs)]
  simp only [ofBits, Array.getElem_ofFn, UInt8.toNat_ofNat']
  rw [Nat.mod_eq_of_lt small, Nat.testBit_ofBits_lt _ _ hj, hi]

@[simp] theorem putSize (data : Bytes) (offset width value : Nat) :
    (data.put offset width value).size = data.size := ofBitsSize _ _

theorem putBit (data : Bytes) (offset width value : Nat) {i : Nat} (h : i < 8 * data.size) :
    (data.put offset width value).bit i =
      if offset ≤ i ∧ i < offset + width then value.testBit (i - offset) else data.bit i :=
  ofBitsBit _ h

theorem putBitWithin {data : Bytes} {offset width : Nat} (fits : offset + width ≤ 8 * data.size)
    (value i : Nat) : (data.put offset width value).bit i =
      if offset ≤ i ∧ i < offset + width then value.testBit (i - offset) else data.bit i := by
  by_cases h : i < 8 * data.size
  · exact putBit data offset width value h
  · have outside : ¬(offset ≤ i ∧ i < offset + width) := by omega
    rw [if_neg outside, bitOutside _ (by simpa using h), bitOutside data (Nat.not_lt.mp h)]

theorem toNatTestBit (data : Bytes) (i : Nat) : data.toNat.testBit i = data.bit i := by
  obtain ⟨bytes⟩ := data
  induction bytes generalizing i with
  | nil => simp [toNat, bit, byte]
  | cons b rest ih =>
    have split : toNat ⟨b :: rest⟩ = 2 ^ 8 * toNat ⟨rest⟩ + b.toNat := by
      simp [toNat, Nat.add_comm]
    rw [split, Nat.testBit_two_pow_mul_add _ b.toNat_lt]
    by_cases h : i < 8
    · have hd : i / 8 = 0 := by omega
      have hm : i % 8 = i := by omega
      simp [h, bit, byte, hd, hm]
    · obtain ⟨k, rfl⟩ : ∃ k, i = k + 8 := ⟨i - 8, by omega⟩
      have hd : (k + 8) / 8 = k / 8 + 1 := by omega
      have hm : (k + 8) % 8 = k % 8 := by omega
      have next := ih k
      rw [bit] at next ⊢
      simpa [byte, hd, hm, h] using next

theorem fieldTestBit (data : Bytes) (offset width i : Nat) :
    (data.field offset width).testBit i = (decide (i < width) && data.bit (offset + i)) := by
  rw [field, Nat.testBit_mod_two_pow, Nat.testBit_shiftRight, toNatTestBit]

theorem fieldLt (data : Bytes) (offset width : Nat) : data.field offset width < 2 ^ width :=
  Nat.mod_lt _ (Nat.two_pow_pos width)

theorem fieldEq {data : Bytes} {offset width n : Nat} (small : n < 2 ^ width)
    (bits : ∀ i < width, data.bit (offset + i) = n.testBit i) : data.field offset width = n := by
  apply Nat.eq_of_testBit_eq
  intro i
  rw [fieldTestBit]
  by_cases h : i < width
  · simp [h, bits i h]
  · have big : n < 2 ^ i := Nat.lt_of_lt_of_le small (Nat.pow_le_pow_right (by decide) (by omega))
    simp [h, Nat.testBit_lt_two_pow big]

theorem fieldCongr {a b : Bytes} {offset offset' width : Nat}
    (bits : ∀ i < width, a.bit (offset + i) = b.bit (offset' + i)) :
    a.field offset width = b.field offset' width := by
  apply Nat.eq_of_testBit_eq
  intro i
  rw [fieldTestBit, fieldTestBit]
  by_cases h : i < width
  · simp [h, bits i h]
  · simp [h]

theorem fieldShift (data : Bytes) {offset width shift inner : Nat} (h : shift + inner ≤ width) :
    (data.field offset width >>> shift) % 2 ^ inner = data.field (offset + shift) inner := by
  apply Nat.eq_of_testBit_eq
  intro i
  rw [Nat.testBit_mod_two_pow, Nat.testBit_shiftRight, fieldTestBit, fieldTestBit]
  by_cases hi : i < inner
  · have hw : shift + i < width := by omega
    simp [hi, hw, Nat.add_assoc]
  · simp [hi]

theorem fieldLow (data : Bytes) {offset width inner : Nat} (h : inner ≤ width) :
    data.field offset width % 2 ^ inner = data.field offset inner := by
  simpa using @fieldShift data offset width 0 inner (by simpa using h)

theorem fieldJoin (data : Bytes) (offset low high : Nat) :
    data.field offset low ||| data.field (offset + low) high <<< low = data.field offset (low + high) := by
  apply Nat.eq_of_testBit_eq
  intro i
  rw [Nat.testBit_or, Nat.testBit_shiftLeft, fieldTestBit, fieldTestBit, fieldTestBit]
  by_cases hl : i < low
  · have hw : i < low + high := by omega
    simp [hl, hw]
  · have same : offset + low + (i - low) = offset + i := by omega
    have bound : i - low < high ↔ i < low + high := by omega
    simp [hl, Nat.not_lt.mp hl, same, bound]

theorem fieldPut {data : Bytes} {offset width value : Nat} (fits : offset + width ≤ 8 * data.size)
    (small : value < 2 ^ width) : (data.put offset width value).field offset width = value := by
  apply fieldEq small
  intro i hi
  rw [putBitWithin fits, if_pos (by omega), Nat.add_sub_cancel_left]

theorem fieldPutApart {data : Bytes} {offset width value start count : Nat}
    (fits : offset + width ≤ 8 * data.size) (apart : start + count ≤ offset ∨ offset + width ≤ start) :
    (data.put offset width value).field start count = data.field start count := by
  apply fieldCongr
  intro i hi
  rw [putBitWithin fits, if_neg (by omega)]

theorem putMod (data : Bytes) (offset width value : Nat) :
    data.put offset width value = data.put offset width (value % 2 ^ width) := by
  apply eqOfBits (by simp)
  intro i hi
  simp only [putSize] at hi
  rw [putBit _ _ _ _ hi, putBit _ _ _ _ hi]
  by_cases within : offset ≤ i ∧ i < offset + width
  · have low : i - offset < width := by omega
    rw [if_pos within, if_pos within, Nat.testBit_mod_two_pow]
    simp [low]
  · rw [if_neg within, if_neg within]

theorem putSplit {data : Bytes} {offset low high value : Nat} :
    (data.put offset low (value % 2 ^ low)).put (offset + low) high (value >>> low % 2 ^ high) =
      data.put offset (low + high) value := by
  apply eqOfBits (by simp)
  intro i hi
  simp only [putSize] at hi
  rw [putBit _ _ _ _ (by simpa using hi), putBit _ _ _ _ hi, putBit _ _ _ _ hi]
  by_cases h : offset + low ≤ i ∧ i < offset + low + high
  · have whole : offset ≤ i ∧ i < offset + (low + high) := by omega
    have index : low + (i - (offset + low)) = i - offset := by omega
    have bound : i - (offset + low) < high := by omega
    rw [if_pos h, if_pos whole, Nat.testBit_mod_two_pow, Nat.testBit_shiftRight, index]
    simp [bound]
  · rw [if_neg h]
    by_cases hl : offset ≤ i ∧ i < offset + low
    · have whole : offset ≤ i ∧ i < offset + (low + high) := by omega
      have bound : i - offset < low := by omega
      rw [if_pos hl, if_pos whole, Nat.testBit_mod_two_pow]
      simp [bound]
    · rw [if_neg hl, if_neg (by omega)]

theorem putWindow {data : Bytes} {start window shift width value n : Nat}
    (inside : shift + width ≤ window)
    (bits : ∀ i < window, n.testBit i =
      if shift ≤ i ∧ i < shift + width then value.testBit (i - shift) else data.bit (start + i)) :
    data.put start window n = data.put (start + shift) width value := by
  apply eqOfBits (by simp)
  intro i hi
  simp only [putSize] at hi
  rw [putBit _ _ _ _ hi, putBit _ _ _ _ hi]
  by_cases h : start ≤ i ∧ i < start + window
  · have back : start + (i - start) = i := by omega
    have index : i - start - shift = i - (start + shift) := by omega
    have same : (shift ≤ i - start ∧ i - start < shift + width) ↔
        (start + shift ≤ i ∧ i < start + shift + width) := by omega
    rw [if_pos h, bits (i - start) (by omega), back, index]
    simp only [same]
  · rw [if_neg h, if_neg (by omega)]

theorem putZeroWidth (data : Bytes) (offset value : Nat) : data.put offset 0 value = data := by
  apply eqOfBits (by simp)
  intro i hi
  rw [putBit _ _ _ _ (by simpa using hi), if_neg (by omega)]

theorem putAgain (data : Bytes) (offset width value value' : Nat) :
    (data.put offset width value).put offset width value' = data.put offset width value' := by
  apply eqOfBits (by simp)
  intro i hi
  simp only [putSize] at hi
  rw [putBit _ _ _ _ (by simpa using hi), putBit _ _ _ _ hi, putBit _ _ _ _ hi]
  split
  · rfl
  · rfl

theorem putComm {data : Bytes} {o w v o' w' v' : Nat} (apart : o + w ≤ o' ∨ o' + w' ≤ o) :
    (data.put o w v).put o' w' v' = (data.put o' w' v').put o w v := by
  apply eqOfBits (by simp)
  intro i hi
  simp only [putSize] at hi
  rw [putBit _ _ _ _ (by simpa using hi), putBit _ _ _ _ hi, putBit _ _ _ _ (by simpa using hi),
    putBit _ _ _ _ hi]
  by_cases h : o ≤ i ∧ i < o + w
  · rw [if_pos h, if_neg (by omega), if_pos h]
  · rw [if_neg h, if_neg h]

@[simp] theorem zerosSize (n : Nat) : (zeros n).size = n := by simp [zeros]

theorem zerosBit (n i : Nat) : (zeros n).bit i = false := by
  by_cases h : i / 8 < n
  · simp [bit, byte, zeros, Array.getD, h]
  · simp [bit, byte, zeros, Array.getD, h]

theorem zerosField (n offset width : Nat) : (zeros n).field offset width = 0 :=
  fieldEq (Nat.two_pow_pos width) fun i _ => by simp [zerosBit]

end Bytes

end CircuitSim
