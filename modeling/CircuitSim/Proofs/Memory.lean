import CircuitSim.Proofs.Bits
import CircuitSim.Proofs.Word

/-! An access that stays in a block moves exactly its bytes. The pieces that it is made of lie end to end, so
a load joins them to the field of those bytes and a store puts the field. -/
namespace CircuitSim

namespace Memory
open Bytes

theorem wordField (data : Bytes) (start count : Nat) :
    word data start count = data.field (8 * start) (8 * count) := by
  apply Nat.eq_of_testBit_eq
  intro i
  rw [fieldTestBit]
  induction count generalizing start i with
  | zero => simp [word]
  | succ count ih =>
    have split : word data start (count + 1) =
        2 ^ 8 * word data (start + 1) count + (data.byte start).toNat := by
      simp [word, Nat.add_comm]
    rw [split, Nat.testBit_two_pow_mul_add _ (data.byte start).toNat_lt]
    split
    · rename_i low
      have inside : i < 8 * (count + 1) := by omega
      rw [byteTestBit]
      simp [low, inside]
    · rename_i high
      have same : 8 * (start + 1) + (i - 8) = 8 * start + i := by omega
      have bound : i - 8 < 8 * count ↔ i < 8 * (count + 1) := by omega
      rw [ih, same]
      simp [bound]

theorem setBit {data : Bytes} {place i : Nat} {b : UInt8} (h : i < 8 * data.size) :
    Bytes.bit (data.setIfInBounds place b) i =
      if i / 8 = place then b.toNat.testBit (i % 8) else data.bit i := by
  have inside : i / 8 < data.size := by omega
  rw [bit, byteAt _ (by simpa using inside), Array.getElem_setIfInBounds]
  split
  · rename_i same
    rw [if_pos same.symm]
  · rename_i other
    rw [if_neg (Ne.symm other), bit, byteAt _ inside]

theorem setWordPut {data : Bytes} {start count : Nat} (fits : start + count ≤ data.size) (n : Nat) :
    setWord data start count n = data.put (8 * start) (8 * count) n := by
  induction count generalizing data start n with
  | zero => rw [setWord, Nat.mul_zero, putZeroWidth]
  | succ count ih =>
    have rest : start + 1 + count ≤ (data.setIfInBounds start (UInt8.ofNat (n % 256))).size := by
      rw [Array.size_setIfInBounds]
      omega
    rw [setWord, ih rest]
    apply eqOfBits (by simp)
    intro i hi
    have inside : i < 8 * data.size := by simpa using hi
    rw [putBit _ _ _ _ (by simpa using inside), putBit _ _ _ _ inside, setBit inside]
    by_cases high : 8 * (start + 1) ≤ i ∧ i < 8 * (start + 1) + 8 * count
    · have index : i - 8 * (start + 1) + 8 = i - 8 * start := by omega
      rw [if_pos high, if_pos (by omega), show (256 : Nat) = 2 ^ 8 from rfl, Nat.testBit_div_two_pow, index]
    · rw [if_neg high]
      by_cases first : i / 8 = start
      · have small : n % 256 < 2 ^ 8 := Nat.mod_lt n (by decide)
        have index : i % 8 = i - 8 * start := by omega
        have low : i - 8 * start < 8 := by omega
        rw [if_pos first, if_pos (by omega), UInt8.toNat_ofNat', Nat.mod_eq_of_lt small,
          show (256 : Nat) = 2 ^ 8 from rfl, Nat.testBit_mod_two_pow, index]
        simp [low]
      · rw [if_neg first, if_neg (by omega)]

inductive Chain : Nat → Nat → List (Nat × Nat) → Prop
  | nil (start : Nat) : Chain start start []
  | cons {start size stop : Nat} {rest : List (Nat × Nat)} (pos : 0 < size)
      (tail : Chain (start + size) stop rest) : Chain start stop ((start, size) :: rest)

theorem chainLe {start stop : Nat} {rest : List (Nat × Nat)} (chain : Chain start stop rest) :
    start ≤ stop := by
  induction chain with
  | nil => exact Nat.le_refl _
  | cons pos tail ih => omega

theorem piecesGo {fuel start left : Nat} (enough : left ≤ fuel) :
    Chain start (start + left) (pieces.go fuel start left) := by
  induction fuel generalizing start left with
  | zero =>
    have none : left = 0 := Nat.le_zero.mp enough
    subst none
    exact .nil start
  | succ fuel ih =>
    unfold pieces.go
    split
    · rename_i none
      subst none
      exact .nil start
    · rename_i some
      have step : ∀ size, 0 < size → size ≤ left →
          Chain start (start + left) ((start, size) :: pieces.go fuel (start + size) (left - size)) := by
        intro size pos le
        have rest := @ih (start + size) (left - size) (by omega)
        rw [Nat.add_assoc, Nat.add_sub_cancel' le] at rest
        exact .cons pos rest
      apply step
      · repeat' split
        all_goals decide
      · repeat' split
        all_goals omega

theorem piecesChain (bytes : Nat) : Chain 0 bytes (pieces bytes) := by
  unfold pieces
  split
  · rename_i same
    subst same
    exact .cons (by decide) (.nil 16)
  · simpa using @piecesGo bytes 0 bytes (Nat.le_refl bytes)

theorem loadChain (data : Bytes) (start : Nat) {bytes place : Nat} {rest : List (Nat × Nat)} (fits : bytes ≤ 16)
    (chain : Chain place bytes rest) (n : Nat) (low : n = data.field (8 * start) (8 * place)) :
    rest.foldl (fun n (place, size) =>
      n ||| Word.shl (bytes * 8) (word data (start + place) size) (place * 8)) n =
        data.field (8 * start) (8 * bytes) := by
  induction chain generalizing n with
  | nil => exact low
  | @cons place size stop rest pos tail ih =>
    have le := chainLe tail
    have shift : place * 8 < stop * 8 := by omega
    have value : data.field (8 * start + 8 * place) (8 * size) <<< (8 * place) < 2 ^ (stop * 8) := by
      have bound := fieldLt data (8 * start + 8 * place) (8 * size)
      rw [Nat.shiftLeft_eq]
      calc data.field (8 * start + 8 * place) (8 * size) * 2 ^ (8 * place)
          < 2 ^ (8 * size) * 2 ^ (8 * place) := Nat.mul_lt_mul_of_pos_right bound (Nat.two_pow_pos _)
        _ = 2 ^ (8 * size + 8 * place) := (Nat.pow_add 2 _ _).symm
        _ ≤ 2 ^ (stop * 8) := Nat.pow_le_pow_right (by decide) (by omega)
    apply ih fits
    simp only
    rw [Word.shlEq (by omega) shift, wordField, Nat.mul_add, Nat.mul_comm place 8, Nat.mod_eq_of_lt value,
      low, fieldJoin, Nat.mul_add]

theorem storeChain {data : Bytes} {start bytes place : Nat} {rest : List (Nat × Nat)} (n : Nat)
    (fits : start + bytes ≤ data.size) (small : bytes ≤ 16) (chain : Chain place bytes rest) :
    rest.foldl (fun data (place, size) =>
      setWord data (start + place) size (Word.lshr (bytes * 8) n (place * 8)))
        (data.put (8 * start) (8 * place) n) = data.put (8 * start) (8 * bytes) n := by
  induction chain with
  | nil => rfl
  | @cons place size stop rest pos tail ih =>
    have le := chainLe tail
    have step : setWord (data.put (8 * start) (8 * place) n) (start + place) size
        (Word.lshr (stop * 8) n (place * 8)) = data.put (8 * start) (8 * (place + size)) n := by
      rw [Word.lshrEq (by omega) (by omega), setWordPut (by rw [putSize]; omega)]
      apply eqOfBits (by simp)
      intro i hi
      have inside : i < 8 * data.size := by simpa using hi
      rw [putBit _ _ _ _ (by simpa using inside), putBit _ _ _ _ inside, putBit _ _ _ _ inside]
      by_cases piece : 8 * (start + place) ≤ i ∧ i < 8 * (start + place) + 8 * size
      · have index : place * 8 + (i - 8 * (start + place)) = i - 8 * start := by omega
        rw [if_pos piece, if_pos (by omega), Nat.testBit_shiftRight, index]
      · rw [if_neg piece]
        by_cases before : 8 * start ≤ i ∧ i < 8 * start + 8 * place
        · rw [if_pos before, if_pos (by omega)]
        · rw [if_neg before, if_neg (by omega)]
    rw [List.foldl_cons]
    simp only
    rw [step]
    exact ih fits small

theorem setWordSize (data : Bytes) (start count n : Nat) : (setWord data start count n).size = data.size := by
  induction count generalizing data start n with
  | zero => rfl
  | succ count ih => rw [setWord, ih, Array.size_setIfInBounds]

theorem piecesSize (word : Nat → Nat) (start : Nat) (parts : List (Nat × Nat)) (data : Bytes) :
    (parts.foldl (fun data (place, size) => setWord data (start + place) size (word place)) data).size = data.size := by
  induction parts generalizing data with
  | nil => rfl
  | cons part rest ih => exact (ih _).trans (setWordSize _ _ _ _)

theorem blockGet {memory : Memory} {block : Nat} {data : Bytes} (here : memory[block]? = some data) :
    memory.getD block #[] = data := by
  rw [Array.getD_eq_getD_getElem?, here, Option.getD_some]

theorem blockModify {memory : Memory} {block : Nat} {data : Bytes} (here : memory[block]? = some data)
    (change : Bytes → Bytes) : memory.modify block change = memory.setIfInBounds block (change data) := by
  apply Array.ext_getElem?
  intro i
  rw [Array.getElem?_modify, Array.getElem?_setIfInBounds]
  split
  · rename_i same
    subst same
    obtain ⟨inside, here⟩ := Array.getElem?_eq_some_iff.mp here
    simp [here, inside]
  · rfl

theorem blockSame {memory : Memory} {block : Nat} {data : Bytes} (here : memory[block]? = some data) :
    memory.setIfInBounds block data = memory := by
  apply Array.ext_getElem?
  intro i
  rw [Array.getElem?_setIfInBounds]
  split
  · rename_i same
    subst same
    obtain ⟨inside, here⟩ := Array.getElem?_eq_some_iff.mp here
    simp [here, inside]
  · rfl

theorem blockSet {memory : Memory} {block : Nat} {data : Bytes} (here : memory[block]? = some data)
    (data' : Bytes) : (memory.setIfInBounds block data')[block]? = some data' := by
  obtain ⟨inside, -⟩ := Array.getElem?_eq_some_iff.mp here
  rw [Array.getElem?_setIfInBounds_self_of_lt inside]

theorem blockOther {memory : Memory} {block other : Nat} (apart : block ≠ other) (data' : Bytes) :
    (memory.setIfInBounds block data')[other]? = memory[other]? :=
  Array.getElem?_setIfInBounds_ne apart

section Located

variable {memory : Memory} {ptr : Value} {block start bytes : Nat} {offset : Int} {data : Bytes}
  (located : memory.locate ptr offset bytes = .ok (block, start))
include located

theorem locatedFits (positive : 0 < bytes) : ∃ data, memory[block]? = some data ∧ start + bytes ≤ data.size := by
  have lies : ∀ {other : Nat} {place : Int}, memory.within? other place bytes = some (block, start) →
      start + bytes ≤ (memory.getD block #[]).size := by
    intro other place found
    unfold within? at found
    split at found
    · rename_i fits
      cases found
      exact fits.2
    · cases found
  have fits : start + bytes ≤ (memory.getD block #[]).size := by
    unfold locate at located
    simp only at located
    split at located
    · rename_i place found
      cases located
      cases ptr with
      | number n =>
        obtain ⟨_, -, inside⟩ := Option.bind_eq_some_iff.mp found
        exact lies inside
      | address block position =>
        rcases Option.or_eq_some_iff.mp found with inside | ⟨-, inside⟩
        · exact lies inside
        · exact lies inside
    · cases located
  cases here : memory[block]? with
  | none =>
    rw [Array.getD_eq_getD_getElem?, here] at fits
    exact absurd fits (by simp; omega)
  | some data =>
    rw [blockGet here] at fits
    exact ⟨data, rfl, fits⟩

theorem loadLocated (small : bytes ≤ 16) :
    memory.load ptr offset bytes = .ok ((memory.getD block #[]).field (8 * start) (8 * bytes)) := by
  have joined := loadChain (memory.getD block #[]) start small (piecesChain bytes) 0
    (by simp [Bytes.field, Nat.mod_one])
  unfold load
  split
  · rename_i none
    subst none
    simp [Bytes.field, Nat.mod_one]
  · simp only [located, bind, Except.bind, pure, Except.pure]
    rw [joined]

theorem storeLocated (here : memory[block]? = some data) (fits : start + bytes ≤ data.size) (small : bytes ≤ 16)
    (n : Nat) : memory.store ptr offset bytes n =
      .ok (memory.setIfInBounds block (data.put (8 * start) (8 * bytes) n)) := by
  have stored := storeChain n fits small (piecesChain bytes)
  rw [Nat.mul_zero, putZeroWidth] at stored
  unfold store
  split
  · rename_i none
    subst none
    rw [Nat.mul_zero, putZeroWidth, blockSame here]
  · simp only [located, bind, Except.bind, pure, Except.pure]
    rw [blockModify here, stored]

end Located

section Inside

variable {memory : Memory} {block start bytes : Nat} {position offset : Int} {data : Bytes}

theorem locateInside (here : memory[block]? = some data) (place : position + offset = start)
    (fits : start + bytes ≤ data.size) :
    memory.locate (.address block position) offset bytes = .ok (block, start) := by
  have inside : memory.within? block (position + offset) bytes = some (block, start) := by
    unfold within?
    rw [blockGet here, place, Int.toNat_natCast, if_pos ⟨Int.natCast_nonneg _, fits⟩]
  simp [locate, inside]

theorem loadInside (here : memory[block]? = some data) (place : position + offset = start)
    (fits : start + bytes ≤ data.size) (small : bytes ≤ 16) :
    memory.load (.address block position) offset bytes = .ok (data.field (8 * start) (8 * bytes)) := by
  rw [loadLocated (locateInside here place fits) small, blockGet here]

theorem storeInside (here : memory[block]? = some data) (place : position + offset = start)
    (fits : start + bytes ≤ data.size) (small : bytes ≤ 16) (n : Nat) :
    memory.store (.address block position) offset bytes n =
      .ok (memory.setIfInBounds block (data.put (8 * start) (8 * bytes) n)) :=
  storeLocated (locateInside here place fits) here fits small n

end Inside

end Memory

end CircuitSim
