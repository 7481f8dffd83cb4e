import CircuitSim.Proofs.Copying
import CircuitSim.Proofs.Field
import CircuitSim.Record.Basic

/-! Members of a record lie in order, each with its own bits, and host and compiled code mean the same bits by a
member. -/
namespace CircuitSim
open Emit (storedWidth)

/-- The bits that a member of `width` bits has to itself. -/
def Rules.room (rules : Rules) (width : Nat) : Nat :=
  match rules with
  | .natural | .packed => 8 * Width.bytes width
  | .bitPacked => width

theorem Rules.leRoom (rules : Rules) (width : Nat) : width ≤ rules.room width := by
  cases rules <;> simp only [room, Width.bytes] <;> omega

theorem Rules.roomWhole {rules : Rules} (whole : rules ≠ .bitPacked) (width : Nat) :
    rules.room width = 8 * Width.bytes width := by
  cases rules with
  | bitPacked => exact absurd rfl whole
  | natural | packed => rfl

namespace Member

structure Placed (rules : Rules) (start stop : Nat) (member : Member) : Prop where
  positive : 0 < member.width
  storage : member.placement.storage = Width.bytes member.width
  exclusive : member.placement.exclusive = decide (rules ≠ .bitPacked)
  aligned : rules ≠ .bitPacked → member.offset % 8 = 0
  first : start ≤ member.offset
  last : member.offset + rules.room member.width ≤ stop

theorem Placed.widen {rules : Rules} {start start' stop stop' : Nat} {member : Member}
    (placed : Placed rules start stop member) (first : start' ≤ start) (last : stop ≤ stop') :
    Placed rules start' stop' member :=
  { placed with first := Nat.le_trans first placed.first, last := Nat.le_trans placed.last last }

theorem Placed.stored {rules : Rules} {start stop : Nat} {member : Member}
    (placed : Placed rules start stop member) (narrow : member.width ≤ 128) :
    storedWidth member.placement = rules.room member.width := by
  have offset : member.placement.offset = member.offset := rfl
  have few : Width.bytes member.width ≤ 16 := Emit.bytesLe.mpr narrow
  unfold storedWidth
  rw [placed.exclusive, placed.storage, offset]
  cases rules with
  | bitPacked => simp [Rules.room, width]
  | natural => simp [Rules.room, placed.aligned nofun, few]
  | packed => simp [Rules.room, placed.aligned nofun, few]

theorem Placed.storedBounds {rules : Rules} {start stop : Nat} {member : Member}
    (placed : Placed rules start stop member) :
    member.width ≤ storedWidth member.placement ∧ storedWidth member.placement ≤ rules.room member.width := by
  have room := rules.leRoom member.width
  have own : member.placement.width = member.width := rfl
  unfold storedWidth
  rw [placed.exclusive, placed.storage, own]
  split
  · rename_i whole
    rw [Rules.roomWhole (of_decide_eq_true whole.2.1)] at room ⊢
    exact ⟨room, Nat.le_refl _⟩
  · exact ⟨Nat.le_refl _, room⟩

end Member

namespace Layout

theorem leRoundUp (n : Nat) {unit : Nat} (pos : 0 < unit) : n ≤ roundUp n unit := by
  unfold roundUp
  have := Nat.lt_div_mul_add (a := n + unit - 1) pos
  omega

theorem containerPos (width : Nat) : 0 < (container width).2 := by
  unfold container
  split
  · exact Width.containerBytes_pos width
  · exact Nat.succ_pos 7

theorem bytesLeContainer (width : Nat) : Width.bytes width ≤ (container width).1 := by
  unfold container Width.bytes
  split
  · have := Width.le_containerBits (by assumption : width ≤ Width.maxNative)
    unfold Width.containerBits at this
    omega
  · omega

theorem freeLeStart (rules : Rules) {free : Nat} (width : Nat) (aligned : rules ≠ .bitPacked → free % 8 = 0) :
    free ≤ start rules free width := by
  cases rules with
  | natural =>
    have up := leRoundUp (free / 8) (containerPos width)
    have whole := aligned nofun
    simp only [start]
    omega
  | packed => exact Nat.le_refl free
  | bitPacked => exact Nat.le_refl free

theorem startAligned {rules : Rules} {free : Nat} (width : Nat) (aligned : rules ≠ .bitPacked → free % 8 = 0) :
    rules ≠ .bitPacked → start rules free width % 8 = 0 := by
  intro whole
  cases rules with
  | natural => exact Nat.mul_mod_left _ 8
  | packed => exact aligned whole
  | bitPacked => exact absurd rfl whole

theorem roomLeStop (rules : Rules) (first width : Nat) : first + rules.room width ≤ stop rules first width := by
  have container := bytesLeContainer width
  cases rules <;> simp only [stop, Rules.room] <;> omega

theorem stopAligned {rules : Rules} {first : Nat} (width : Nat) (aligned : rules ≠ .bitPacked → first % 8 = 0) :
    rules ≠ .bitPacked → stop rules first width % 8 = 0 := by
  intro whole
  have before := aligned whole
  cases rules with
  | natural => simpa [stop] using before
  | packed => simpa [stop] using before
  | bitPacked => exact absurd rfl whole

theorem placeAllCons {rules : Rules} {seen : List String} {free last : Nat} {entry : String × Nat}
    {list : List (String × Nat)} {members : List Member}
    (ok : placeAll rules seen free (entry :: list) = .ok (members, last)) :
    entry.2 ≠ 0 ∧ entry.1 ∉ seen ∧ ∃ tail, members = place rules free entry.1 entry.2 :: tail ∧
      placeAll rules (entry.1 :: seen) (stop rules (start rules free entry.2) entry.2) list = .ok (tail, last) := by
  unfold placeAll at ok
  split at ok
  · exact nomatch ok
  · rename_i positive
    split at ok
    · exact nomatch ok
    · rename_i fresh
      obtain ⟨⟨tail, stopped⟩, placed, done⟩ := Result.okBind ok
      cases done
      exact ⟨positive, fresh, tail, rfl, placed⟩

theorem placeAllPlaced {rules : Rules} {seen : List String} {free last : Nat} {list : List (String × Nat)}
    {members : List Member} (ok : placeAll rules seen free list = .ok (members, last))
    (aligned : rules ≠ .bitPacked → free % 8 = 0) :
    free ≤ last ∧ (rules ≠ .bitPacked → last % 8 = 0) ∧ (∀ member ∈ members, member.Placed rules free last) ∧
      members.Pairwise (fun a b => a.offset + rules.room a.width ≤ b.offset) ∧
      members.map (fun member => (member.name, member.width)) = list := by
  -- all that was placed ends at `free`, and a later start can only be behind it
  induction list generalizing seen free members last with
  | nil =>
    cases ok
    simpa using aligned
  | cons entry rest ih =>
    obtain ⟨name, width⟩ := entry
    obtain ⟨positive, -, tail, rfl, behind⟩ := placeAllCons ok
    have whole := startAligned width aligned
    have before := freeLeStart rules width aligned
    have room := roomLeStop rules (start rules free width) width
    obtain ⟨le, end8, placed, ordered, names⟩ := ih behind (stopAligned width whole)
    have here : (place rules free name width).Placed rules free last :=
      ⟨Nat.pos_of_ne_zero positive, rfl, rfl, whole, before, Nat.le_trans room le⟩
    have fit : free ≤ stop rules (start rules free width) width := by omega
    refine ⟨Nat.le_trans fit le, end8, ?_, ?_, ?_⟩
    · intro member mem
      rcases List.mem_cons.mp mem with rfl | later
      · exact here
      · exact (placed member later).widen fit (Nat.le_refl _)
    · refine List.pairwise_cons.mpr ⟨fun other mem => ?_, ordered⟩
      exact Nat.le_trans room (placed other mem).first
    · rw [List.map_cons, names]
      rfl

theorem placeAllIff {rules : Rules} {seen : List String} {free : Nat} {list : List (String × Nat)} :
    (∃ placed, placeAll rules seen free list = .ok placed) ↔
      (list.map (·.1)).Nodup ∧ ∀ entry ∈ list, entry.1 ∉ seen ∧ entry.2 ≠ 0 := by
  induction list generalizing seen free with
  | nil => exact ⟨fun _ => ⟨.nil, nofun⟩, fun _ => ⟨_, rfl⟩⟩
  | cons entry rest ih =>
    obtain ⟨name, width⟩ := entry
    rw [List.map_cons, List.nodup_cons]
    constructor
    · rintro ⟨⟨members, last⟩, ok⟩
      obtain ⟨positive, fresh, tail, -, behind⟩ := placeAllCons ok
      obtain ⟨distinct, others⟩ := ih.mp ⟨_, behind⟩
      refine ⟨⟨fun mem => ?_, distinct⟩, fun entry mem => ?_⟩
      · obtain ⟨entry, member, same⟩ := List.mem_map.mp mem
        exact (others entry member).1 (same ▸ List.mem_cons_self)
      · rcases List.mem_cons.mp mem with rfl | later
        · exact ⟨fresh, positive⟩
        · exact ⟨fun taken => (others entry later).1 (List.mem_cons_of_mem name taken), (others entry later).2⟩
    · rintro ⟨⟨missing, distinct⟩, all⟩
      obtain ⟨fresh, positive⟩ := all (name, width) List.mem_cons_self
      have others : ∀ entry ∈ rest, entry.1 ∉ name :: seen ∧ entry.2 ≠ 0 := by
        intro entry mem
        obtain ⟨unseen, sized⟩ := all entry (List.mem_cons_of_mem _ mem)
        refine ⟨fun taken => ?_, sized⟩
        rcases List.mem_cons.mp taken with same | before
        · exact missing (same ▸ List.mem_map.mpr ⟨entry, mem, rfl⟩)
        · exact unseen before
      obtain ⟨placed, behind⟩ :=
        (@ih (name :: seen) (stop rules (place rules free name width).offset width)).mpr ⟨distinct, others⟩
      rw [placeAll, if_neg positive, if_neg fresh]
      simp only [behind, bind, Except.bind]
      exact ⟨_, rfl⟩

theorem alignmentPos (rules : Rules) (members : List Member) : 0 < alignment rules members := by
  have grows : ∀ (list : List Member) (align : Nat), 0 < align →
      0 < list.foldl (fun align member => max align (container member.width).2) align := by
    intro list
    induction list with
    | nil => exact fun align pos => pos
    | cons member rest ih => exact fun align pos => ih _ (Nat.lt_of_lt_of_le pos (Nat.le_max_left _ _))
  cases rules with
  | natural => exact grows members 1 Nat.one_pos
  | packed => exact Nat.one_pos
  | bitPacked => exact Nat.one_pos

structure WellPlaced (layout : Layout) : Prop where
  placed : ∀ member ∈ layout.members, member.Placed layout.rules 0 (8 * layout.size)
  ordered : layout.members.Pairwise fun a b => a.offset + layout.rules.room a.width ≤ b.offset

theorem ofMembersPlaced {rules : Rules} {list : List (String × Nat)} {layout : Layout}
    (ok : ofMembers rules list = .ok layout) : layout.WellPlaced ∧ layout.rules = rules ∧
      layout.members.map (fun member => (member.name, member.width)) = list := by
  obtain ⟨⟨members, last⟩, placed, done⟩ := Result.okBind ok
  obtain ⟨-, end8, inside, ordered, names⟩ := placeAllPlaced placed (fun _ => rfl)
  cases done
  refine ⟨⟨fun member mem => (inside member mem).widen (Nat.le_refl 0) ?_, ordered⟩, rfl, names⟩
  cases rules with
  | natural =>
    have whole := end8 nofun
    have up := leRoundUp (last / 8) (alignmentPos .natural members)
    simp only
    omega
  | packed =>
    simp only [Width.bytes]
    omega
  | bitPacked =>
    simp only [Width.bytes]
    omega

theorem positionAt {layout : Layout} {name : String} {index : Nat} (found : layout.position? name = some index) :
    ∃ member, layout.members[index]? = some member ∧ member.name = name := by
  obtain ⟨inside, named, -⟩ := List.findIdx?_eq_some_iff_getElem.mp found
  exact ⟨_, List.getElem?_eq_getElem inside, of_decide_eq_true named⟩

theorem positionFound {layout : Layout} {member : Member} (mem : member ∈ layout.members) :
    ∃ index, layout.position? member.name = some index := by
  refine Option.ne_none_iff_exists'.mp fun missing => ?_
  simpa using List.findIdx?_eq_none_iff.mp missing member mem

theorem ofMembersIff {rules : Rules} {list : List (String × Nat)} :
    (∃ layout, ofMembers rules list = .ok layout) ↔ (list.map (·.1)).Nodup ∧ ∀ entry ∈ list, entry.2 ≠ 0 := by
  have placed := @placeAllIff rules [] 0 list
  simp only [List.not_mem_nil, not_false_eq_true, true_and] at placed
  rw [← placed]
  constructor
  · rintro ⟨layout, ok⟩
    obtain ⟨placed, known, -⟩ := Result.okBind ok
    exact ⟨placed, known⟩
  · rintro ⟨placed, known⟩
    exact ⟨_, by rw [ofMembers, known]; rfl⟩

end Layout

end CircuitSim
