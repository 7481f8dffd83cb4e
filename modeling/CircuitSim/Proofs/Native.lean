import CircuitSim.Proofs.Emission

/-! How wide the numbers are that code works on. The code of an access keeps to what one value can hold exactly when
the field or the element does, and wider ones are not refused. Main statement: `accessesEmitted`. -/
namespace CircuitSim

def Op.widest : Op → Nat
  | const width _ | binary _ width .. | not width _ | compare _ width .. | select width .. | shl width ..
  | lshr width .. | urem width .. | index width .. => width
  | resize _ source target => max source target
  | load _ _ bytes => bytes * 8
  | offset .. | slot _ | param _ => 0

/-- The widest number that the code works on; an access of too many bytes makes it as wide. -/
def Code.widest : Code → Nat
  | done => 0
  | define op rest => max op.widest rest.widest
  | store _ _ _ bytes rest => max (bytes * 8) rest.widest
  | call _ _ rest => rest.widest
  | branch _ body rest => max body.widest rest.widest

theorem Code.widestAppend (a b : Code) : (a ++ b).widest = max a.widest b.widest := by
  induction a with
  | done => exact (Nat.zero_max _).symm
  | define op rest ih | store arg ptr offset bytes rest ih =>
    simp only [widest, define_append, store_append, ih, Nat.max_assoc]
  | call function args rest ih => exact ih
  | branch cond body rest _ ih => simp only [widest, branch_append, ih, Nat.max_assoc]

namespace Emit

open Width (maxNative half)

variable {α β : Type} {holds holds' : Nat → Prop}

def Spans (holds : Nat → Prop) (e : Emit α) : Prop :=
  ∀ next, ∃ written, e next = .ok written ∧ holds written.code.widest

abbrev Native (e : Emit α) : Prop := Spans (· ≤ maxNative) e
abbrev Wide (e : Emit α) : Prop := Spans (maxNative < ·) e

theorem Spans.bindOk (both : Nat → Prop) (join : ∀ m n, holds m → holds' n → both (max m n)) {e : Emit α}
    {rest : α → Emit β} (first : Spans holds e)
    (second : ∀ {next written}, e next = .ok written → Spans holds' (rest written.result)) :
    Spans both (e >>= rest) := by
  intro next
  obtain ⟨written, emitted, known⟩ := first next
  obtain ⟨written', emitted', known'⟩ := second emitted written.next
  refine ⟨⟨written'.result, written.code ++ written'.code, written'.next⟩, ?_, ?_⟩
  · simp only [Bind.bind, Emit.bind, emitted, emitted']
  · rw [Code.widestAppend]
    exact join _ _ known known'

theorem opSpans {op : Op} (known : holds op.widest) : Spans holds (Emit.op op) := fun _ =>
  ⟨_, rfl, by simpa [Code.widest] using known⟩

theorem storeSpans {arg ptr : Ref} {offset : Int} {bytes : Nat} (known : holds (bytes * 8)) :
    Spans holds (store arg ptr offset bytes) := fun _ => ⟨_, rfl, by simpa [Code.widest] using known⟩

theorem opNative {op : Op} (fits : op.widest ≤ maxNative) : Native (Emit.op op) := opSpans fits

theorem Native.pure (result : α) : Native (Pure.pure result : Emit α) := fun next =>
  ⟨⟨result, .done, next⟩, rfl, Nat.zero_le _⟩

theorem Native.bind {e : Emit α} {rest : α → Emit β} (first : Native e) (second : ∀ a, Native (rest a)) :
    Native (e >>= rest) :=
  .bindOk (· ≤ maxNative) (fun _ _ left right => Nat.max_le.mpr ⟨left, right⟩) first fun _ => second _

theorem Writes.spans {callees : Nat → Prop} {e : Emit α} (writes : Writes callees e) : Spans (fun _ => True) e := by
  intro next
  obtain ⟨written, emitted, -⟩ := writes next
  exact ⟨written, emitted, trivial⟩

theorem Wide.first {e : Emit α} {rest : α → Emit β} (first : Wide e) (second : ∀ a, Writes (fun _ => True) (rest a)) :
    Wide (e >>= rest) :=
  .bindOk (maxNative < ·) (fun m n wide _ => Nat.lt_of_lt_of_le wide (Nat.le_max_left m n)) first fun _ =>
    (second _).spans

theorem Wide.last {e : Emit α} {rest : α → Emit β} (first : Writes (fun _ => True) e) (second : ∀ a, Wide (rest a)) :
    Wide (e >>= rest) :=
  .bindOk (maxNative < ·) (fun m n _ wide => Nat.lt_of_lt_of_le wide (Nat.le_max_right m n)) first.spans fun _ =>
    second _

theorem windowNative {bits : Nat} (fits : bits ≤ 128) (what : String) {rest : Nat → Emit α}
    (then' : ∀ bytes, bytes * 8 ≤ maxNative → Native (rest bytes)) : Native (window bits what >>= rest) := by
  have small : Width.bytes bits ≤ 16 := by
    unfold Width.bytes
    omega
  unfold window
  rw [if_neg (Nat.not_lt.mpr small)]
  exact (pureBind (Width.bytes bits) rest).symm ▸ then' _ (Nat.mul_le_mul_right 8 small)

theorem byteNative : 8 ≤ maxNative := by decide

theorem wordNative : 64 ≤ maxNative := by decide

section Halves

variable {width : Nat}

theorem joinNative (fits : width ≤ maxNative) (low high : Ref) : Native (joinHalves width low high) := by
  have rest : width - half ≤ maxNative := Nat.le_trans (Nat.sub_le ..) fits
  exact .bind (opNative (Nat.max_le.mpr ⟨wordNative, fits⟩)) fun _ =>
    .bind (opNative (Nat.max_le.mpr ⟨rest, fits⟩)) fun _ => .bind (opNative byteNative) fun _ =>
    .bind (opNative fits) fun _ => opNative fits

theorem splitNative (fits : width ≤ maxNative) (value : Ref) : Native (splitHalves width value) := by
  have rest : width - half ≤ maxNative := Nat.le_trans (Nat.sub_le ..) fits
  exact .bind (opNative (Nat.max_le.mpr ⟨fits, wordNative⟩)) fun _ => .bind (opNative byteNative) fun _ =>
    .bind (opNative fits) fun _ => .bind (opNative (Nat.max_le.mpr ⟨fits, rest⟩)) fun _ => .pure _

theorem joinWide (past : maxNative < width) (low high : Ref) : Wide (joinHalves width low high) := by
  have wide : maxNative < max half width := Nat.lt_of_lt_of_le past (Nat.le_max_right ..)
  exact .first (opSpans wide) fun _ => (opWrites _).bind fun _ => (opWrites _).bind fun _ => (opWrites _).bind fun _ =>
    opWrites _

theorem splitWide (past : maxNative < width) (value : Ref) : Wide (splitHalves width value) := by
  have wide : maxNative < max width half := Nat.lt_of_lt_of_le past (Nat.le_max_left ..)
  exact .first (opSpans wide) fun _ => (opWrites _).bind fun _ => (opWrites _).bind fun _ => (opWrites _).bind fun _ =>
    .pure _

end Halves

section Fields

variable {base value : Ref} {field : Placement}

theorem loadFieldNative (fits : field.width ≤ maxNative) : Native (loadField base field) := by
  induction field using loadField.induct with
  | case1 field shift whole =>
    have bytes : field.storage * 8 ≤ maxNative := Nat.mul_le_mul_right 8 whole.2
    rw [loadField, if_pos whole]
    exact .bind (opNative bytes) fun _ => opNative (Nat.max_le.mpr ⟨bytes, fits⟩)
  | case2 field shift whole wide low high =>
    rw [loadField, if_neg whole, dif_pos wide]
    exact .bind (low wordNative) fun _ => .bind (high (Nat.le_trans (Nat.sub_le ..) fits)) fun _ => joinNative fits _ _
  | case3 field shift whole narrow =>
    rw [loadField, if_neg whole, dif_neg narrow]
    exact windowNative (windowFits narrow) _ fun bytes few => .bind (opNative few) fun _ =>
      .bind (opNative byteNative) fun _ => .bind (opNative few) fun _ => opNative (Nat.max_le.mpr ⟨few, fits⟩)

theorem storeFieldNative (fits : field.width ≤ maxNative) : Native (storeField base field value) := by
  induction field, value using storeField.induct with
  | case1 field value shift whole =>
    have bytes : field.storage * 8 ≤ maxNative := Nat.mul_le_mul_right 8 whole.2.1
    rw [storeField, if_pos whole]
    exact .bind (opNative (Nat.max_le.mpr ⟨fits, bytes⟩)) fun _ => storeSpans bytes
  | case2 field value shift whole wide low high =>
    rw [storeField, if_neg whole, dif_pos wide]
    exact .bind (splitNative fits _) fun halves => .bind (low halves.1 wordNative) fun _ =>
      high halves.2 (Nat.le_trans (Nat.sub_le ..) fits)
  | case3 field value shift whole narrow =>
    rw [storeField, if_neg whole, dif_neg narrow]
    exact windowNative (windowFits narrow) _ fun bytes few => .bind (opNative few) fun _ =>
      .bind (opNative few) fun _ => .bind (opNative few) fun _ => .bind (opNative (Nat.max_le.mpr ⟨fits, few⟩)) fun _ =>
      .bind (opNative byteNative) fun _ => .bind (opNative few) fun _ => .bind (opNative few) fun _ => storeSpans few

theorem loadFieldWide (past : maxNative < field.width) (storage : 16 < field.storage) :
    Wide (loadField base field) := by
  rw [loadField, if_neg fun whole => Nat.not_le.mpr storage whole.2]
  split
  · exact .last (loadFieldWrites _ _) fun _ => .last (loadFieldWrites _ _) fun _ => joinWide past _ _
  · rename_i narrow
    exact .last (windowWrites (windowFits narrow) _) fun _ => .last (opWrites _) fun _ => .last (opWrites _) fun _ =>
      .last (opWrites _) fun _ => opSpans (Nat.lt_of_lt_of_le past (Nat.le_max_right ..))

theorem storeFieldWide (past : maxNative < field.width) (storage : 16 < field.storage) :
    Wide (storeField base field value) := by
  rw [storeField, if_neg fun whole => Nat.not_le.mpr storage whole.2.1]
  split
  · exact .first (splitWide past _) fun _ => (storeFieldWrites _ _ _).bind fun _ => storeFieldWrites _ _ _
  · rename_i narrow
    exact .last (windowWrites (windowFits narrow) _) fun _ => .last (opWrites _) fun _ => .last (opWrites _) fun _ =>
      .last (opWrites _) fun _ => .first (opSpans (Nat.lt_of_lt_of_le past (Nat.le_max_left ..))) fun _ =>
      (opWrites _).bind fun _ => (opWrites _).bind fun _ => (opWrites _).bind fun _ => storeWrites _ _ _ _

end Fields

section Elements

variable {ptr shift base index value : Ref} {width : Nat}

theorem loadShiftedNative (fits : width ≤ maxNative) : Native (loadShifted ptr shift width) := by
  induction ptr, width using loadShifted.induct with
  | case1 ptr width wide low high =>
    rw [loadShifted, dif_pos wide]
    exact .bind (low wordNative) fun _ => .bind (opNative (Nat.zero_le _)) fun upper =>
      .bind (high upper (Nat.le_trans (Nat.sub_le ..) fits)) fun _ => joinNative fits _ _
  | case2 ptr width narrow =>
    rw [loadShifted, dif_neg narrow]
    exact windowNative (not_not.mp narrow) _ fun bytes few => .bind (opNative few) fun _ =>
      .bind (opNative (Nat.max_le.mpr ⟨wordNative, few⟩)) fun _ => .bind (opNative few) fun _ =>
      opNative (Nat.max_le.mpr ⟨few, fits⟩)

theorem storeShiftedNative (fits : width ≤ maxNative) : Native (storeShifted ptr shift width value) := by
  induction ptr, width, value using storeShifted.induct with
  | case1 ptr width value wide low high =>
    rw [storeShifted, dif_pos wide]
    exact .bind (splitNative fits _) fun halves => .bind (low halves.1 wordNative) fun _ =>
      .bind (opNative (Nat.zero_le _)) fun upper => high halves.2 upper (Nat.le_trans (Nat.sub_le ..) fits)
  | case2 ptr width value narrow =>
    rw [storeShifted, dif_neg narrow]
    exact windowNative (not_not.mp narrow) _ fun bytes few =>
      .bind (opNative (Nat.max_le.mpr ⟨wordNative, few⟩)) fun _ => .bind (opNative few) fun _ =>
      .bind (opNative few) fun _ => .bind (opNative few) fun _ => .bind (opNative few) fun _ =>
      .bind (opNative few) fun _ => .bind (opNative (Nat.max_le.mpr ⟨fits, few⟩)) fun _ =>
      .bind (opNative few) fun _ => .bind (opNative few) fun _ => storeSpans few

theorem loadShiftedWide (past : maxNative < width) : Wide (loadShifted ptr shift width) := by
  rw [loadShifted]
  split
  · exact .last (loadShiftedWrites _ _ _) fun _ => .last (opWrites _) fun _ => .last (loadShiftedWrites _ _ _) fun _ =>
      joinWide past _ _
  · rename_i fits
    exact .last (windowWrites (not_not.mp fits) _) fun _ => .last (opWrites _) fun _ => .last (opWrites _) fun _ =>
      .last (opWrites _) fun _ => opSpans (Nat.lt_of_lt_of_le past (Nat.le_max_right ..))

theorem storeShiftedWide (past : maxNative < width) : Wide (storeShifted ptr shift width value) := by
  rw [storeShifted]
  split
  · exact .first (splitWide past _) fun _ => (storeShiftedWrites _ _ _ _).bind fun _ => (opWrites _).bind fun _ =>
      storeShiftedWrites _ _ _ _
  · rename_i fits
    exact .last (windowWrites (not_not.mp fits) _) fun _ => .last (opWrites _) fun _ => .last (opWrites _) fun _ =>
      .last (opWrites _) fun _ => .last (opWrites _) fun _ => .last (opWrites _) fun _ => .last (opWrites _) fun _ =>
      .first (opSpans (Nat.lt_of_lt_of_le past (Nat.le_max_left ..))) fun _ => (opWrites _).bind fun _ =>
      (opWrites _).bind fun _ => storeWrites _ _ _ _

theorem addressNative : Native (elementAddress base index width) := by
  unfold elementAddress
  split
  · exact .bind (opNative wordNative) fun _ => .bind (opNative wordNative) fun _ => .bind (opNative wordNative) fun _ =>
      .pure _
  · exact .bind (opNative wordNative) fun _ => .bind (opNative wordNative) fun _ => .bind (opNative wordNative) fun _ =>
      .bind (opNative wordNative) fun _ => .bind (opNative wordNative) fun _ => .bind (opNative wordNative) fun _ =>
      .bind (opNative wordNative) fun _ => .pure _

theorem addressWhole {next : Nat} {written : Written (Ref × Option Ref)}
    (emitted : elementAddress base index width next = .ok written) : written.result.2 = none ↔ width % 8 = 0 := by
  unfold elementAddress at emitted
  split at emitted
  · rename_i whole
    cases emitted
    exact iff_of_true rfl whole
  · rename_i partly
    cases emitted
    exact iff_of_false nofun partly

theorem loadElementNative (fits : width ≤ maxNative) : Native (loadElement base index width) := by
  refine .bind addressNative fun place => ?_
  split
  · exact opNative (Nat.le_trans (Nat.div_mul_le_self width 8) fits)
  · exact loadShiftedNative fits

theorem storeElementNative (fits : width ≤ maxNative) : Native (storeElement base index width value) := by
  refine .bind addressNative fun place => ?_
  split
  · exact storeSpans (Nat.le_trans (Nat.div_mul_le_self width 8) fits)
  · exact storeShiftedNative fits

theorem addressWide {rest : Ref × Option Ref → Emit α} (whole : ∀ ptr, width / 8 * 8 = width → Wide (rest (ptr, none)))
    (partly : ∀ ptr shift, Wide (rest (ptr, some shift))) : Wide (elementAddress base index width >>= rest) := by
  refine .bindOk (maxNative < ·) (fun m n _ wide => Nat.lt_of_lt_of_le wide (Nat.le_max_right m n)) addressNative ?_
  rintro next ⟨⟨ptr, shift?⟩, code, after⟩ emitted
  cases shift? with
  | none =>
    have aligned : width % 8 = 0 := (addressWhole emitted).mp rfl
    exact whole ptr (Nat.div_mul_cancel (Nat.dvd_of_mod_eq_zero aligned))
  | some shift => exact partly ptr shift

theorem loadElementWide (past : maxNative < width) : Wide (loadElement base index width) :=
  addressWide (fun _ same => opSpans (Nat.lt_of_lt_of_eq past same.symm)) fun _ _ => loadShiftedWide past

theorem storeElementWide (past : maxNative < width) : Wide (storeElement base index width value) :=
  addressWide (fun _ same => storeSpans (Nat.lt_of_lt_of_eq past same.symm)) fun _ _ => storeShiftedWide past

end Elements

theorem spansIff {e : Emit α} {width : Nat} (native : width ≤ maxNative → Native e) (wide : maxNative < width → Wide e)
    (next : Nat) : ∃ written, e next = .ok written ∧ (written.code.widest ≤ maxNative ↔ width ≤ maxNative) := by
  by_cases fits : width ≤ maxNative
  · obtain ⟨written, emitted, narrow⟩ := native fits next
    exact ⟨written, emitted, iff_of_true narrow fits⟩
  · obtain ⟨written, emitted, past⟩ := wide (Nat.not_le.mp fits) next
    exact ⟨written, emitted, iff_of_false (Nat.not_le.mpr past) fits⟩

/-- Fields in as many bytes as they need and elements of arrays are accessed at every width, without a refusal. What is
emitted keeps to numbers and accesses that one value can hold exactly when the field or the element does. -/
theorem accessesEmitted (base index value : Ref) (offset width : Nat) (exclusive : Bool) (next : Nat) :
    (∃ written, loadField base ⟨offset, width, Width.bytes width, exclusive⟩ next = .ok written ∧
      (written.code.widest ≤ maxNative ↔ width ≤ maxNative)) ∧
    (∃ written, storeField base ⟨offset, width, Width.bytes width, exclusive⟩ value next = .ok written ∧
      (written.code.widest ≤ maxNative ↔ width ≤ maxNative)) ∧
    (∃ written, loadElement base index width next = .ok written ∧
      (written.code.widest ≤ maxNative ↔ width ≤ maxNative)) ∧
    ∃ written, storeElement base index width value next = .ok written ∧
      (written.code.widest ≤ maxNative ↔ width ≤ maxNative) := by
  have bytes : maxNative < width → 16 < Width.bytes width := by
    intro past
    unfold maxNative at past
    unfold Width.bytes
    omega
  exact ⟨spansIff loadFieldNative (fun past => loadFieldWide past (bytes past)) next,
    spansIff storeFieldNative (fun past => storeFieldWide past (bytes past)) next,
    spansIff loadElementNative loadElementWide next, spansIff storeElementNative storeElementWide next⟩

theorem wideEmitted :
    (∃ written, loadField 0 ⟨0, 129, Width.bytes 129, true⟩ 1 = .ok written ∧ written.code.widest = 129) ∧
    ∃ written, loadElement 0 1 136 2 = .ok written ∧ written.code.widest = 136 := by
  have field : (loadField 0 ⟨0, 129, Width.bytes 129, true⟩ 1).toOption.any (fun written =>
      decide (written.code.widest = 129)) = true := by decide +kernel
  have element : (loadElement 0 1 136 2).toOption.any (fun written => decide (written.code.widest = 136)) = true := by
    decide +kernel
  obtain ⟨written, emitted, widest⟩ := Result.okAny field
  obtain ⟨written', emitted', widest'⟩ := Result.okAny element
  exact ⟨⟨written, emitted, of_decide_eq_true widest⟩, written', emitted', of_decide_eq_true widest'⟩

end Emit

end CircuitSim
