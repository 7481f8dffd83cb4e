import CircuitSim.Proofs.Layout

/-! One record from both sides: the host reads and writes members with `value` and `set`, compiled code with the
code for their fields. Main statement: `fieldCodeAgrees`. -/
namespace CircuitSim.Record
open Emit (Located storedWidth)

section Members

variable {layout : Layout} (wellPlaced : layout.WellPlaced) {data : Bytes} (sized : data.size = layout.size)
  {member : Member} (mem : member ∈ layout.members)
include wellPlaced mem

theorem memberInside : member.offset + member.width ≤ 8 * layout.size := by
  have placed := wellPlaced.placed member mem
  exact Nat.le_trans (Nat.add_le_add_left (layout.rules.leRoom member.width) _) placed.last

include sized

theorem valueField : (Record.mk layout data).value member = data.field member.offset member.width := by
  have inside := memberInside wellPlaced mem
  exact readBitsField (by rw [sized]; exact inside)

theorem valueLt : (Record.mk layout data).value member < 2 ^ member.width := by
  rw [valueField wellPlaced sized mem]
  exact data.fieldLt _ _

theorem setBytesPut {i : Nat} (found : layout.members[i]? = some member) (value : Bytes) :
    (Record.mk layout data).setBytes (.position i) value =
      .ok ⟨layout, data.put member.offset member.width value.toNat⟩ := by
  have inside := memberInside wellPlaced mem
  obtain ⟨index, -⟩ := List.getElem?_eq_some_iff.mp found
  have written : writeBits data member.placement.offset member.placement.width value =
      some (data.put member.offset member.width value.toNat) :=
    writeBitsPut (by rw [sized]; exact inside) value
  have key : (Record.mk layout data).member (.position i) = .ok member := by
    simp only [Record.member, member?, position?, if_pos index, Option.bind_some, found]
  simp only [setBytes, key, bind, Except.bind, pure, Except.pure, write, written, Option.getD_some]

theorem setPut {i : Nat} (found : layout.members[i]? = some member) (v : Nat) :
    (Record.mk layout data).set (.position i) v = .ok ⟨layout, data.put member.offset member.width v⟩ := by
  rw [set, setBytesPut wellPlaced sized mem found, ofNumberToNat]

theorem setWordPut {i : Nat} (found : layout.members[i]? = some member) {v : Nat} (small : v < 2 ^ 64) :
    (Record.mk layout data).setWord (.position i) v = .ok ⟨layout, data.put member.offset member.width v⟩ := by
  rw [setWord, setBytesPut wellPlaced sized mem found, ofWordToNat small]

theorem memberLocated (counts : member.width + 7 < 2 ^ 32) (small : layout.size < 2 ^ 31) {frame : Frame}
    {memory : Memory} {base : Ref} {block : Nat} (here : memory[block]? = some data)
    (held : frame.Holds base (.address block 0)) :
    Located frame memory base member.placement block 0 data := by
  have placed := wellPlaced.placed member mem
  have inside : member.placement.offset + member.placement.width ≤ 8 * layout.size := memberInside wellPlaced mem
  exact ⟨held, here, by omega, placed.positive, counts, placed.storage, by omega⟩

omit sized mem in
theorem apart {i j : Nat} {a b : Member} (ha : layout.members[i]? = some a) (hb : layout.members[j]? = some b)
    (different : i ≠ j) :
    a.offset + layout.rules.room a.width ≤ b.offset ∨ b.offset + layout.rules.room b.width ≤ a.offset := by
  obtain ⟨hi, rfl⟩ := List.getElem?_eq_some_iff.mp ha
  obtain ⟨hj, rfl⟩ := List.getElem?_eq_some_iff.mp hb
  have ordered := List.pairwise_iff_getElem.mp wellPlaced.ordered
  rcases Nat.lt_or_gt_of_ne different with before | behind
  · exact .inl (ordered i j hi hj before)
  · exact .inr (ordered j i hj hi behind)

omit sized mem in
theorem putOwn {count v : Nat} (mem : member ∈ layout.members) (sized : data.size = layout.size)
    (covers : member.width ≤ count) (room : count ≤ layout.rules.room member.width) (fits : v < 2 ^ member.width) :
    (Record.mk layout (data.put member.offset count v)).value member = v := by
  have last := (wellPlaced.placed member mem).last
  have whole : member.offset + count ≤ 8 * data.size := by omega
  have sized' : (data.put member.offset count v).size = layout.size := by rw [Bytes.putSize, sized]
  have low := @Bytes.fieldLow (data.put member.offset count v) member.offset count member.width covers
  rw [Bytes.fieldPut whole (Nat.lt_of_lt_of_le fits (Nat.pow_le_pow_right (by decide) covers))] at low
  rw [valueField wellPlaced sized' mem, ← low, Nat.mod_eq_of_lt fits]

omit sized in
theorem putOther {i j count v : Nat} {other : Member} (sized : data.size = layout.size)
    (room : count ≤ layout.rules.room member.width) (found : layout.members[i]? = some member)
    (found' : layout.members[j]? = some other) (different : j ≠ i) :
    (Record.mk layout (data.put member.offset count v)).value other = (Record.mk layout data).value other := by
  have mem' : other ∈ layout.members := List.mem_of_getElem? found'
  have last := (wellPlaced.placed member mem).last
  have whole : member.offset + count ≤ 8 * data.size := by omega
  have sized' : (data.put member.offset count v).size = layout.size := by rw [Bytes.putSize, sized]
  rw [valueField wellPlaced sized' mem', valueField wellPlaced sized mem']
  have separate := apart wellPlaced found' found different
  have room' := layout.rules.leRoom other.width
  exact Bytes.fieldPutApart whole (by omega)

section Code
open Emit

variable (small : layout.size < 2 ^ 31) {context : Context} {allowed : Access → Prop}
  {frame : Frame} {memory : Memory} {base : Ref} {block : Nat} (here : memory[block]? = some data)
  (held : frame.Holds base (.address block 0))
  (safe : ∀ access : Access, access.Within block 0 layout.size → allowed access)
include small here held safe

omit sized small here held in
theorem memberSafe (access : Access) (within : access.Within block (0 + member.placement.offset / 8)
    (0 + Width.bytes (member.placement.offset + member.placement.width))) : allowed access := by
  have stop : member.placement.offset + member.placement.width ≤ 8 * layout.size := memberInside wellPlaced mem
  exact safe access (within.widen (Nat.zero_le _) (by rw [Nat.zero_add]; exact bytesLe.mpr stop))

theorem memberGives (narrow : member.width ≤ 128) : Gives context allowed (loadField base member.placement) frame memory
    (.number ((Record.mk layout data).value member)) := by
  have located := memberLocated wellPlaced sized mem (by omega) small here held
  refine (loadFieldGives located (memberSafe wellPlaced mem safe) narrow).to ?_
  rw [valueField wellPlaced sized mem, Nat.mul_zero, Nat.zero_add]
  rfl

theorem fieldLeaves (counts : member.width + 7 < 2 ^ 32) {value : Ref} {v : Nat} (given : frame.Holds value (.number v))
    (fits : v < 2 ^ member.width) (native : v < 2 ^ 128) :
    Leaves context allowed (storeField base member.placement value) frame memory
      (memory.setIfInBounds block (data.put member.offset (storedWidth member.placement) v)) := by
  have located := memberLocated wellPlaced sized mem counts small here held
  have left : Leaves context allowed _ frame memory _ :=
    storeFieldLeaves located (memberSafe wellPlaced mem safe) given fits native
  rw [Nat.mul_zero, Nat.zero_add] at left
  exact left

theorem memberLeaves (narrow : member.width ≤ 128) {value : Ref} {v : Nat} (given : frame.Holds value (.number v))
    (fits : v < 2 ^ member.width) : Leaves context allowed (storeField base member.placement value) frame memory
      (memory.setIfInBounds block (data.put member.offset (layout.rules.room member.width) v)) := by
  have native := Nat.lt_of_lt_of_le fits (Nat.pow_le_pow_right (by decide) narrow)
  have left : Leaves context allowed _ frame memory _ :=
    fieldLeaves wellPlaced sized mem small here held safe (by omega) given fits native
  rw [(wellPlaced.placed member mem).stored narrow] at left
  exact left

end Code

end Members

theorem valueZero {record : Record} (placed : record.layout.WellPlaced)
    (zero : record.data = Bytes.zeros record.layout.size) :
    ∀ member ∈ record.layout.members, record.value member = 0 := by
  intro member mem
  have sized : record.data.size = record.layout.size := by rw [zero, Bytes.zerosSize]
  have value : record.value member = record.data.field member.offset member.width := valueField placed sized mem
  rw [value, zero, Bytes.zerosField]

/-- The code for a member's field loads the value that the host reads, and stores what the host would write. It
touches bytes of the record only, the other members keep their values, and the buffer is the host's but for
the spare bits of the member's last byte, which become zero unless members share bytes. -/
theorem fieldCodeAgrees (rules : Rules) (members : List (String × Nat)) (layout : Layout)
    (laidOut : Layout.ofMembers rules members = .ok layout) (narrow : ∀ entry ∈ members, entry.2 ≤ 128)
    (small : layout.size < 2 ^ 31) (i : Nat) (member : Member) (found : layout.members[i]? = some member)
    (data : Bytes) (sized : data.size = layout.size) (context : Context) (frame : Frame) (memory : Memory)
    (block : Nat) (here : memory[block]? = some data) (base : Ref) (held : frame.Holds base (.address block 0)) :
    (∃ result reached, Emit.Runs context (Emit.loadField base member.placement) frame memory result reached ∧
      (∀ access ∈ reached.touched, access.Within block 0 layout.size) ∧ reached.memory = memory ∧
      reached.frame.Holds result (.number ((Record.mk layout data).value member))) ∧
    ∀ value v, frame.Holds value (.number v) → v < 2 ^ member.width →
      ∃ reached data' written,
        Emit.Runs context (Emit.storeField base member.placement value) frame memory () reached ∧
        (∀ access ∈ reached.touched, access.Within block 0 layout.size) ∧
        reached.memory = memory.setIfInBounds block data' ∧ data'.size = layout.size ∧
        (Record.mk layout data').value member = v ∧
        (∀ j other, layout.members[j]? = some other → j ≠ i →
          (Record.mk layout data').value other = (Record.mk layout data).value other) ∧
        (Record.mk layout data).set (.position i) v = .ok ⟨layout, written⟩ ∧ written.size = layout.size ∧
        ∀ bit, data'.bit bit =
          if rules ≠ .bitPacked ∧ member.offset + member.width ≤ bit ∧
              bit < member.offset + 8 * Width.bytes member.width then false
          else written.bit bit := by
  obtain ⟨wellPlaced, same, entries⟩ := Layout.ofMembersPlaced laidOut
  have mem : member ∈ layout.members := List.mem_of_getElem? found
  have width : member.width ≤ 128 :=
    narrow (member.name, member.width) (entries ▸ List.mem_map.mpr ⟨member, mem, rfl⟩)
  have inside := (wellPlaced.placed member mem).last
  have room := layout.rules.leRoom member.width
  constructor
  · obtain ⟨result, reached, runs, touched, kept, gives⟩ := @memberGives layout wellPlaced data sized member mem
      small context (fun access => access.Within block 0 layout.size) frame memory base block here held (fun _ => id) width
    exact ⟨result, reached, runs, touched, kept, gives⟩
  · intro value v given fits
    obtain ⟨⟨⟩, reached, runs, touched, left⟩ := @memberLeaves layout wellPlaced data sized member mem small
      context (fun access => access.Within block 0 layout.size) frame memory base block here held (fun _ => id) width value
      v given fits
    have whole : member.offset + layout.rules.room member.width ≤ 8 * data.size := by
      rw [sized]
      exact inside
    refine ⟨reached, _, _, runs, touched, left, by rw [Bytes.putSize, sized],
      putOwn wellPlaced mem sized room (Nat.le_refl _) fits,
      fun j other found' different => putOther wellPlaced mem sized (Nat.le_refl _) found found' different,
      setPut wellPlaced sized mem found v, by rw [Bytes.putSize, sized], ?_⟩
    intro bit
    have spare : member.offset + member.width ≤ bit → v.testBit (bit - member.offset) = false := fun past =>
      Nat.testBit_lt_two_pow (Nat.lt_of_lt_of_le fits (Nat.pow_le_pow_right (by decide) (by omega)))
    rw [Bytes.putBitWithin whole, Bytes.putBitWithin (by omega), ← same]
    by_cases shared : layout.rules = .bitPacked
    · have exact : layout.rules.room member.width = member.width := by rw [shared, Rules.room]
      rw [exact]
      exact (if_neg fun h => h.1 shared).symm
    · have bytes := Rules.roomWhole shared member.width
      rw [bytes] at room ⊢
      by_cases past : member.offset + member.width ≤ bit ∧ bit < member.offset + 8 * Width.bytes member.width
      · rw [if_pos (by omega), if_pos ⟨shared, past⟩, spare past.1]
      · refine Eq.trans ?_ (if_neg fun h => past h.2).symm
        by_cases within : member.offset ≤ bit ∧ bit < member.offset + member.width
        · rw [if_pos (by omega), if_pos within]
        · rw [if_neg (by omega), if_neg within]

theorem splitFieldAgrees :
    let member : Member := ⟨"b", 3, 128, 16, false⟩
    let layout : Layout := ⟨.bitPacked, [⟨"a", 0, 3, 1, false⟩, member], 17, 1⟩
    let data : Bytes := Array.replicate 17 255
    let frame : Frame := ⟨[], #[.address 0 0, .number 5]⟩
    Layout.ofMembers .bitPacked [("a", 3), ("b", 128)] = .ok layout ∧
      (∃ result reached, Emit.Runs .bare (Emit.loadField 0 member.placement) frame
        #[data] result reached ∧ reached.frame.Holds result (.number ((Record.mk layout data).value member))) ∧
      ∃ reached data', Emit.Runs .bare (Emit.storeField 0 member.placement 1) frame
        #[data] () reached ∧ reached.memory = #[data'] ∧ (Record.mk layout data').value member = 5 := by
  intro member layout data frame
  have laidOut : Layout.ofMembers .bitPacked [("a", 3), ("b", 128)] = .ok layout := rfl
  obtain ⟨⟨result, reached, runs, -, -, value⟩, stores⟩ := fieldCodeAgrees .bitPacked [("a", 3), ("b", 128)]
    layout laidOut (by decide) (by decide) 1 member rfl data rfl .bare frame #[data]
    0 rfl 0 rfl
  obtain ⟨reached', data', -, runs', -, left, -, stored, -⟩ := stores 1 5 rfl (by decide)
  exact ⟨laidOut, ⟨result, reached, runs, value⟩, reached', data', runs', left, stored⟩

end CircuitSim.Record
