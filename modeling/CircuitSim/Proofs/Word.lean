import CircuitSim.Code.Word
import Mathlib.Data.Nat.Bitwise
import Mathlib.Tactic.Common

/-! Machine arithmetic is arithmetic modulo a power of two. Every operation wraps in a container first; for
operands without bits above their width the result is the number of the same operation reduced to the
width, and has no bits above it either. -/
namespace CircuitSim.Word
open Width (maxNative containerBits)

theorem leContainer {width : Nat} (h : width ≤ 128) : width ≤ containerBits width :=
  Width.le_containerBits h

theorem wrapMod {width : Nat} (h : width ≤ 128) (n : Nat) : wrap width n % 2 ^ width = n % 2 ^ width :=
  Nat.mod_mod_of_dvd n (Nat.pow_dvd_pow 2 (leContainer h))

theorem wrapLt (width n : Nat) : wrap width n < 2 ^ containerBits width :=
  Nat.mod_lt _ (Nat.two_pow_pos _)

theorem wrapSmall {width n : Nat} (fits : width ≤ 128) (h : n < 2 ^ width) : wrap width n = n :=
  Nat.mod_eq_of_lt (Nat.lt_of_lt_of_le h (Nat.pow_le_pow_right (by decide) (leContainer fits)))

theorem shiftPair {bits width n : Nat} (h : width ≤ bits) :
    (n <<< (bits - width) % 2 ^ bits) >>> (bits - width) = n % 2 ^ width := by
  apply Nat.eq_of_testBit_eq
  intro i
  rw [Nat.testBit_shiftRight, Nat.testBit_mod_two_pow, Nat.testBit_shiftLeft, Nat.testBit_mod_two_pow]
  have bound : bits - width + i < bits ↔ i < width := by omega
  simp [bound]

theorem truncateEq {width n : Nat} (fits : width ≤ 128) (h : n < 2 ^ containerBits width) :
    truncate width n = n % 2 ^ width := by
  unfold truncate
  simp only
  split
  · rename_i narrow
    have same : containerBits width = width := Nat.le_antisymm narrow (leContainer fits)
    rw [same] at h
    exact (Nat.mod_eq_of_lt h).symm
  · split
    · exact Nat.and_two_pow_sub_one_eq_mod n width
    · exact shiftPair (leContainer fits)

theorem truncateWrap {width : Nat} (fits : width ≤ 128) (n : Nat) :
    truncate width (wrap width n) = n % 2 ^ width := by
  rw [truncateEq fits (wrapLt width n), wrapMod fits]

theorem constEq {width : Nat} (fits : width ≤ 128) (n : Nat) : const width n = n % 2 ^ width := by
  unfold const Width.mask
  split
  · have same : width = maxNative := Nat.le_antisymm fits (by assumption)
    rw [same, Nat.and_two_pow_sub_one_eq_mod]
  · exact Nat.and_two_pow_sub_one_eq_mod n width

theorem constSmall {width n : Nat} (fits : width ≤ 128) (h : n < 2 ^ width) : const width n = n := by
  rw [constEq fits, Nat.mod_eq_of_lt h]

theorem addEq {width : Nat} (fits : width ≤ 128) (a b : Nat) :
    binary .add width a b = (a + b) % 2 ^ width := truncateWrap fits _

theorem mulEq {width : Nat} (fits : width ≤ 128) (a b : Nat) :
    binary .mul width a b = a * b % 2 ^ width := truncateWrap fits _

theorem subEq {width a b : Nat} (fits : width ≤ 128) (hb : b < 2 ^ width) :
    binary .sub width a b = (a + (2 ^ width - b)) % 2 ^ width := by
  have le := leContainer fits
  have multiple : 2 ^ containerBits width = 2 ^ width * 2 ^ (containerBits width - width) := by
    rw [← Nat.pow_add, Nat.add_sub_cancel' le]
  have one : 0 < 2 ^ (containerBits width - width) := Nat.two_pow_pos _
  have split : 2 ^ containerBits width - b =
      2 ^ width - b + 2 ^ width * (2 ^ (containerBits width - width) - 1) := by
    rw [multiple, Nat.mul_sub, Nat.mul_one]
    have : 2 ^ width ≤ 2 ^ width * 2 ^ (containerBits width - width) := Nat.le_mul_of_pos_right _ one
    omega
  unfold binary
  simp only
  rw [truncateWrap fits, wrapSmall fits hb, split, ← Nat.add_assoc, Nat.add_mul_mod_self_left]

theorem andLt {width a b : Nat} (ha : a < 2 ^ width) : binary .and width a b < 2 ^ width :=
  Nat.lt_of_le_of_lt Nat.and_le_left ha

theorem orLt {width a b : Nat} (ha : a < 2 ^ width) (hb : b < 2 ^ width) :
    binary .or width a b < 2 ^ width := Nat.or_lt_two_pow ha hb

theorem xorLt {width a b : Nat} (ha : a < 2 ^ width) (hb : b < 2 ^ width) :
    binary .xor width a b < 2 ^ width := Nat.xor_lt_two_pow ha hb

theorem notTestBit {width n : Nat} (fits : width ≤ 128) (h : n < 2 ^ width) (i : Nat) :
    (not width n).testBit i = (decide (i < width) && !n.testBit i) := by
  have le := leContainer fits
  have small : n < 2 ^ containerBits width :=
    Nat.lt_of_lt_of_le h (Nat.pow_le_pow_right (by decide) le)
  have flipped : n ^^^ (2 ^ containerBits width - 1) < 2 ^ containerBits width :=
    Nat.xor_lt_two_pow small (Nat.sub_lt (Nat.two_pow_pos _) (by decide))
  unfold not
  rw [truncateEq fits flipped, Nat.testBit_mod_two_pow, Nat.testBit_xor, Nat.testBit_two_pow_sub_one]
  by_cases hi : i < width
  · have wide : i < containerBits width := Nat.lt_of_lt_of_le hi le
    simp [hi, wide]
  · simp [hi]

theorem notEq {width n : Nat} (fits : width ≤ 128) (h : n < 2 ^ width) :
    not width n = 2 ^ width - 1 - n := by
  apply Nat.eq_of_testBit_eq
  intro i
  have swap : 2 ^ width - 1 - n = 2 ^ width - (n + 1) := by omega
  rw [notTestBit fits h, swap, Nat.testBit_two_pow_sub_succ h]

theorem shlWithin {width n amount : Nat} (fits : width ≤ 128) (h : amount < containerBits width) :
    shl width n amount = n <<< amount % 2 ^ width := by
  unfold shl
  rw [truncateWrap fits, Nat.mod_eq_of_lt h]

theorem lshrWithin {width n amount : Nat} (h : amount < containerBits width) :
    lshr width n amount = n >>> amount := by
  unfold lshr
  rw [Nat.mod_eq_of_lt h]

theorem shlEq {width n amount : Nat} (fits : width ≤ 128) (h : amount < width) :
    shl width n amount = n <<< amount % 2 ^ width :=
  shlWithin fits (Nat.lt_of_lt_of_le h (leContainer fits))

theorem lshrEq {width n amount : Nat} (fits : width ≤ 128) (h : amount < width) :
    lshr width n amount = n >>> amount :=
  lshrWithin (Nat.lt_of_lt_of_le h (leContainer fits))

theorem uremWithin {width n divisor : Nat} (h : divisor < 2 ^ containerBits width) :
    urem width n divisor = n % divisor := by
  unfold urem wrap
  rw [Nat.mod_eq_of_lt h]

theorem uremEq {width n divisor : Nat} (fits : width ≤ 128) (h : divisor < 2 ^ width) :
    urem width n divisor = n % divisor :=
  uremWithin (Nat.lt_of_lt_of_le h (Nat.pow_le_pow_right (by decide) (leContainer fits)))

theorem resizeEq {source target n : Nat} (fits : target ≤ 128) (h : n < 2 ^ source) :
    resize source target n = n % 2 ^ target := by
  unfold resize
  split
  · exact truncateWrap fits n
  · have small : n < 2 ^ target :=
      Nat.lt_of_lt_of_le h (Nat.pow_le_pow_right (by decide) (Nat.not_lt.mp (by assumption)))
    rw [wrapSmall fits small, Nat.mod_eq_of_lt small]

theorem resizeNative {source target n : Nat} (h : n < 2 ^ source) (native : n < 2 ^ 128) :
    resize source target n = n % 2 ^ target := by
  by_cases fits : target ≤ 128
  · exact resizeEq fits h
  · have wide : containerBits target = 128 := by
      unfold containerBits Width.containerBytes
      repeat rw [if_neg (by omega)]
    have small : n < 2 ^ target := Nat.lt_of_lt_of_le native (Nat.pow_le_pow_right (by decide) (by omega))
    have wrapped : wrap target n = n := by rw [wrap, wide, Nat.mod_eq_of_lt native]
    have cut : truncate target n = n := by
      unfold truncate
      rw [wide, if_pos (by omega)]
    unfold resize
    rw [wrapped, cut, Nat.mod_eq_of_lt small, ite_self]

theorem resizeWider {source target n : Nat} (fits : target ≤ 128) (le : source ≤ target)
    (h : n < 2 ^ source) : resize source target n = n := by
  have small : n < 2 ^ target := Nat.lt_of_lt_of_le h (Nat.pow_le_pow_right (by decide) le)
  rw [resizeEq fits h, Nat.mod_eq_of_lt small]

end CircuitSim.Word
