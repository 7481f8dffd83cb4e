import CircuitSim.Proofs.Layout
import Mathlib.Data.List.Induction
import Mathlib.Order.Bounds.Basic
import Mathlib.Order.MinMax

/-! How far the members of a record extend: each begins as early as its rules allow, and the record ends as early as
they allow. Main statement: `layoutExtends`. -/
namespace CircuitSim

namespace Member

def Stores (member : Member) (byte : Nat) : Prop :=
  member.offset / 8 ≤ byte ∧ byte < member.offset / 8 + member.placement.storage

def Uses (member : Member) (byte : Nat) : Prop :=
  ∃ bit, member.offset ≤ bit ∧ bit < member.offset + member.width ∧ bit / 8 = byte

def Spares (member other : Member) : Prop :=
  member.placement.exclusive → ∀ byte, member.Stores byte → ¬other.Stores byte ∧ ¬other.Uses byte

def behind (member : Member) : Nat := member.offset / 8 + (Layout.container member.width).1

end Member

namespace Layout

-- Sums of numbers begin with the zero of the core library, also where an algebra library offers its own.
attribute [local instance (2000)] Zero.ofOfNat0

/- What all rules have in common. -/
structure Spans (layout : Layout) (rules : Rules) (list : List (String × Nat)) : Prop where
  same : layout.rules = rules
  members : layout.members.map (fun member => (member.name, member.width)) = list
  positive : ∀ member ∈ layout.members, 0 < member.width
  ordered : layout.members.Pairwise fun a b => a.offset + a.width ≤ b.offset
  inside : ∀ member ∈ layout.members, member.offset + member.width ≤ 8 * layout.size
  position : ∀ name index, layout.position? name = some index ↔
    ∃ member, layout.members[index]? = some member ∧ member.name = name
  stored : ∀ member ∈ layout.members, member.placement.storage = Width.bytes member.width
  marked : ∀ member ∈ layout.members, (member.placement.exclusive ↔ rules ≠ .bitPacked)
  spared : layout.members.Pairwise fun a b => a.Spares b ∧ b.Spares a

def LeastContainer (width : Nat) : Prop :=
  if width ≤ Width.maxNative then
    IsLeast {bytes | (∃ k, bytes = 2 ^ k) ∧ width ≤ 8 * bytes} (container width).1 ∧
      (container width).2 = (container width).1
  else IsLeast {bytes | 8 ∣ bytes ∧ width ≤ 8 * bytes} (container width).1 ∧ (container width).2 = 8

structure Natural (layout : Layout) : Prop where
  containers : ∀ member ∈ layout.members, LeastContainer member.width
  starts : ∀ before member after, layout.members = before ++ member :: after → member.offset % 8 = 0 ∧
    IsLeast {byte | (container member.width).2 ∣ byte ∧ ∀ other ∈ before, other.behind ≤ byte} (member.offset / 8)
  disjoint : layout.members.Pairwise fun a b => a.behind ≤ b.offset / 8
  align : IsGreatest {align | align = 1 ∨ ∃ member ∈ layout.members, align = (container member.width).2} layout.align
  size : IsLeast {size | layout.align ∣ size ∧ ∀ member ∈ layout.members, member.behind ≤ size} layout.size

structure Packed (layout : Layout) : Prop where
  starts : ∀ before member after, layout.members = before ++ member :: after →
    member.offset = 8 * (before.map fun other => Width.bytes other.width).sum
  size : layout.size = (layout.members.map fun member => Width.bytes member.width).sum

structure BitPacked (layout : Layout) : Prop where
  starts : ∀ before member after, layout.members = before ++ member :: after →
    member.offset = (before.map Member.width).sum
  size : layout.size = Width.bytes (layout.members.map Member.width).sum

def Follows (layout : Layout) : Rules → Prop
  | .natural => layout.Natural
  | .packed => layout.Packed
  | .bitPacked => layout.BitPacked

theorem roundUpLeast (n : Nat) {unit : Nat} (pos : 0 < unit) : IsLeast {m | unit ∣ m ∧ n ≤ m} (roundUp n unit) := by
  refine ⟨⟨Nat.dvd_mul_left unit _, leRoundUp n pos⟩, ?_⟩
  rintro m ⟨⟨k, rfl⟩, le⟩
  rw [roundUp, Nat.mul_comm unit k]
  refine Nat.mul_le_mul_right unit (Nat.le_of_lt_succ ((Nat.div_lt_iff_lt_mul pos).mpr ?_))
  rw [Nat.succ_mul, Nat.mul_comm k unit]
  omega

theorem containerLeast (width : Nat) : LeastContainer width := by
  have power (k : Nat) (small : 8 * 2 ^ k < width) (large : width ≤ 8 * 2 ^ (k + 1)) :
      IsLeast {bytes | (∃ k, bytes = 2 ^ k) ∧ width ≤ 8 * bytes} (2 ^ (k + 1)) := by
    refine ⟨⟨⟨k + 1, rfl⟩, large⟩, ?_⟩
    rintro _ ⟨⟨j, rfl⟩, fits⟩
    have more : 2 ^ k < 2 ^ j := by omega
    exact Nat.pow_le_pow_right Nat.two_pos ((Nat.pow_lt_pow_iff_right Nat.one_lt_two).mp more)
  unfold LeastContainer container
  split
  · rename_i native
    refine ⟨?_, rfl⟩
    unfold Width.containerBytes
    unfold Width.maxNative at native
    split
    · refine ⟨⟨⟨0, rfl⟩, by omega⟩, ?_⟩
      rintro _ ⟨⟨j, rfl⟩, -⟩
      exact Nat.one_le_two_pow
    · repeat' split
      · exact power 0 (by omega) (by omega)
      · exact power 1 (by omega) (by omega)
      · exact power 2 (by omega) (by omega)
      · exact power 3 (by omega) (by omega)
  · refine ⟨⟨⟨Nat.dvd_mul_left 8 _, by omega⟩, ?_⟩, rfl⟩
    rintro _ ⟨⟨k, rfl⟩, fits⟩
    omega

section Runs

variable {rules : Rules} {seen : List String} {free last : Nat} {list : List (String × Nat)} {members : List Member}

theorem placeAllTight (ok : placeAll rules seen free list = .ok (members, last)) (tight : rules ≠ .natural) :
    (∀ before member after, members = before ++ member :: after →
      member.offset = free + (before.map fun other => rules.room other.width).sum) ∧
    last = free + (members.map fun member => rules.room member.width).sum := by
  induction list generalizing seen free members with
  | nil =>
    cases ok
    exact ⟨fun _ _ _ split => by simp at split, rfl⟩
  | cons entry rest ih =>
    obtain ⟨-, -, tail, rfl, placed⟩ := placeAllCons ok
    have next : stop rules (start rules free entry.2) entry.2 = free + rules.room entry.2 := by
      cases rules with
      | natural => exact absurd rfl tight
      | packed => simp only [stop, start, Rules.room, Nat.mul_comm]
      | bitPacked => rfl
    have first : (place rules free entry.1 entry.2).offset = free := by
      cases rules with
      | natural => exact absurd rfl tight
      | packed | bitPacked => rfl
    rw [next] at placed
    obtain ⟨starts, ends⟩ := ih placed
    refine ⟨fun before member after split => ?_, ?_⟩
    · rcases List.cons_eq_append_iff.mp split with ⟨rfl, same⟩ | ⟨before', rfl, split'⟩
      · rw [(List.cons.inj same).1, first]
        rfl
      · rw [starts before' member after split', List.map_cons, List.sum_cons, Nat.add_assoc]
        rfl
    · rw [ends, List.map_cons, List.sum_cons, Nat.add_assoc]
      rfl

theorem placeAllNatural (ok : placeAll .natural seen free list = .ok (members, last)) (aligned : free % 8 = 0) :
    (∀ before member after, members = before ++ member :: after → member.offset % 8 = 0 ∧
      IsLeast {byte | (container member.width).2 ∣ byte ∧ free / 8 ≤ byte ∧ ∀ other ∈ before, other.behind ≤ byte}
        (member.offset / 8)) ∧
    IsLeast {byte | free / 8 ≤ byte ∧ ∀ member ∈ members, member.behind ≤ byte} (last / 8) := by
  induction list generalizing seen free members with
  | nil =>
    cases ok
    refine ⟨fun _ _ _ split => by simp at split, ⟨le_rfl, by simp⟩, fun byte both => both.1⟩
  | cons entry rest ih =>
    obtain ⟨-, -, tail, rfl, placed⟩ := placeAllCons ok
    let head := place .natural free entry.1 entry.2
    have whole : head.offset % 8 = 0 := Nat.mul_mod_left _ 8
    have byte : head.offset / 8 = roundUp (free / 8) (container head.width).2 := Nat.mul_div_cancel _ (by decide)
    have first := roundUpLeast (free / 8) (containerPos head.width)
    rw [← byte] at first
    have next : stop .natural head.offset entry.2 = 8 * head.behind := by
      have width : head.width = entry.2 := rfl
      rw [stop, Member.behind, width]
      omega
    have later : free / 8 ≤ head.behind := Nat.le_add_right_of_le first.1.2
    obtain ⟨starts, ends⟩ := ih (next ▸ placed) (Nat.mul_mod_right 8 _)
    -- what is behind the head is behind all that was placed before it
    have both (byte : Nat) (others : List Member) : (8 * head.behind / 8 ≤ byte ∧ ∀ other ∈ others, other.behind ≤ byte) ↔
        free / 8 ≤ byte ∧ ∀ other ∈ head :: others, other.behind ≤ byte := by
      rw [List.forall_mem_cons, Nat.mul_div_cancel_left _ (by decide)]
      constructor
      · rintro ⟨le, all⟩
        exact ⟨later.trans le, le, all⟩
      · rintro ⟨-, le, all⟩
        exact ⟨le, all⟩
    simp only [both] at starts ends
    refine ⟨fun before member after split => ?_, ends⟩
    rcases List.cons_eq_append_iff.mp split with ⟨rfl, same⟩ | ⟨before', rfl, split'⟩
    · obtain rfl : head = member := (List.cons.inj same).1.symm
      exact ⟨whole, by simpa using first⟩
    · exact starts before' member after split'

end Runs

theorem pairwiseSplit {α : Type} {r : α → α → Prop} {xs : List α}
    (all : ∀ before x after, xs = before ++ x :: after → ∀ y ∈ before, r y x) : xs.Pairwise r := by
  induction xs using List.reverseRecOn with
  | nil => exact .nil
  | append_singleton xs x ih =>
    refine List.pairwise_append.mpr ⟨ih fun before y after split => ?_, List.pairwise_singleton r x, fun y mem z single => ?_⟩
    · exact all before y (after ++ [x]) (by rw [split, List.append_assoc, List.cons_append])
    · exact List.mem_singleton.mp single ▸ all xs x [] rfl y mem

theorem foldMax {α : Type} (f : α → Nat) (xs : List α) (start : Nat) :
    IsGreatest {n | n = start ∨ ∃ x ∈ xs, n = f x} (xs.foldl (fun n x => max n (f x)) start) := by
  induction xs generalizing start with
  | nil => exact ⟨.inl rfl, by simp⟩
  | cons x rest ih =>
    obtain ⟨among, above⟩ := ih (max start (f x))
    refine ⟨?_, ?_⟩
    · rcases among with same | ⟨y, mem, same⟩
      · rcases max_choice start (f x) with old | new
        · exact .inl (same.trans old)
        · exact .inr ⟨x, List.mem_cons_self, same.trans new⟩
      · exact .inr ⟨y, List.mem_cons_of_mem x mem, same⟩
    · rintro n (rfl | ⟨y, mem, rfl⟩)
      · exact (le_max_left _ _).trans (above (.inl rfl))
      · rcases List.mem_cons.mp mem with rfl | later
        · exact (le_max_right _ _).trans (above (.inl rfl))
        · exact above (.inr ⟨y, later, rfl⟩)

theorem ofMembersNatural {list : List (String × Nat)} {layout : Layout} (ok : ofMembers .natural list = .ok layout) :
    layout.Natural := by
  obtain ⟨⟨members, last⟩, placed, done⟩ := Result.okBind ok
  obtain ⟨starts, ends⟩ := placeAllNatural placed rfl
  cases done
  simp only [Nat.zero_div, Nat.zero_le, true_and] at starts ends
  refine ⟨fun member _ => containerLeast member.width, starts, pairwiseSplit fun before member after split other mem => (starts before member after split).2.1.2 other mem,
    foldMax _ members 1, ?_⟩
  have holds (byte : Nat) : (∀ member ∈ members, member.behind ≤ byte) ↔ last / 8 ≤ byte :=
    ⟨fun all => ends.2 all, fun le member mem => (ends.1 member mem).trans le⟩
  simp only [holds]
  exact roundUpLeast (last / 8) (alignmentPos .natural members)

theorem roomSum (members : List Member) : (members.map fun member => Rules.packed.room member.width).sum =
    8 * (members.map fun member => Width.bytes member.width).sum := by
  induction members with
  | nil => rfl
  | cons member rest ih =>
    rw [List.map_cons, List.sum_cons, ih, List.map_cons, List.sum_cons, Nat.mul_add]
    rfl

theorem ofMembersPacked {list : List (String × Nat)} {layout : Layout} (ok : ofMembers .packed list = .ok layout) :
    layout.Packed := by
  obtain ⟨⟨members, last⟩, placed, done⟩ := Result.okBind ok
  obtain ⟨starts, ends⟩ := placeAllTight placed nofun
  simp only [roomSum, Nat.zero_add] at starts ends
  cases done
  refine ⟨starts, ?_⟩
  show Width.bytes last = (members.map fun member => Width.bytes member.width).sum
  rw [ends, Width.bytes]
  omega

theorem ofMembersBitPacked {list : List (String × Nat)} {layout : Layout} (ok : ofMembers .bitPacked list = .ok layout) :
    layout.BitPacked := by
  obtain ⟨⟨members, last⟩, placed, done⟩ := Result.okBind ok
  obtain ⟨starts, ends⟩ := placeAllTight placed nofun
  simp only [Rules.room, Nat.zero_add] at starts ends
  cases done
  exact ⟨starts, congrArg Width.bytes ends⟩

theorem ofMembersFollows {rules : Rules} {list : List (String × Nat)} {layout : Layout}
    (ok : ofMembers rules list = .ok layout) : layout.Follows rules := by
  cases rules with
  | natural => exact ofMembersNatural ok
  | packed => exact ofMembersPacked ok
  | bitPacked => exact ofMembersBitPacked ok

theorem roomSpares {rules : Rules} {start stop start' stop' : Nat} {a b : Member} (placed : a.Placed rules start stop)
    (placed' : b.Placed rules start' stop') (apart : a.offset + rules.room a.width ≤ b.offset) : a.Spares b ∧ b.Spares a := by
  by_cases whole : rules = .bitPacked
  · subst whole
    exact ⟨fun marked => by simp [placed.exclusive] at marked, fun marked => by simp [placed'.exclusive] at marked⟩
  · have byte := placed.aligned whole
    have byte' := placed'.aligned whole
    have fits := rules.leRoom a.width
    have fits' := rules.leRoom b.width
    rw [Rules.roomWhole whole] at apart fits fits'
    constructor
    · rintro - i ⟨low, high⟩
      rw [placed.storage] at high
      refine ⟨fun ⟨low', _⟩ => by omega, fun ⟨bit, low', _, here⟩ => by omega⟩
    · rintro - i ⟨low, high⟩
      refine ⟨fun ⟨_, high'⟩ => ?_, fun ⟨bit, _, high', here⟩ => by omega⟩
      rw [placed.storage] at high'
      omega

theorem WellPlaced.spans {layout : Layout} (placed : layout.WellPlaced) {list : List (String × Nat)}
    (distinct : (list.map (·.1)).Nodup) (members : layout.members.map (fun member => (member.name, member.width)) = list) :
    layout.Spans layout.rules list := by
  have names : (layout.members.map (·.name)).Nodup := by
    rw [← members, List.map_map] at distinct
    exact distinct
  refine ⟨rfl, members, fun member mem => (placed.placed member mem).positive, placed.ordered.imp fun apart => ?_,
    fun member mem => ?_, fun name index => ⟨positionAt, ?_⟩, fun member mem => (placed.placed member mem).storage,
    fun member mem => ?_, ?_⟩
  · exact Nat.le_trans (Nat.add_le_add_left (layout.rules.leRoom _) _) apart
  · exact Nat.le_trans (Nat.add_le_add_left (layout.rules.leRoom _) _) (placed.placed member mem).last
  · rintro ⟨member, here, rfl⟩
    obtain ⟨index', found⟩ := positionFound (List.mem_of_getElem? here)
    obtain ⟨member', here', same⟩ := positionAt found
    rw [found, Result.indexInj names here' here same]
  · rw [(placed.placed member mem).exclusive, decide_eq_true_eq]
  · exact placed.ordered.imp_of_mem fun mem mem' apart =>
      roomSpares (placed.placed _ mem) (placed.placed _ mem') apart

theorem placeAllRefused {rules : Rules} {seen : List String} {free : Nat} {list : List (String × Nat)} {fault : Fault}
    (refused : placeAll rules seen free list = .error fault) : ∃ before name width after,
      list = before ++ (name, width) :: after ∧
        (width = 0 ∧ fault = .unsupportedWidth s!"record member `{name}`" 0 ∨
          (name ∈ seen ∨ name ∈ before.map (·.1)) ∧ fault = .invalidCircuit (.duplicateMember name)) := by
  induction list generalizing seen free with
  | nil => cases refused
  | cons entry rest ih =>
    obtain ⟨name, width⟩ := entry
    unfold placeAll at refused
    split at refused
    · rename_i empty
      exact ⟨[], name, width, rest, rfl, .inl ⟨empty, (Except.error.inj refused).symm⟩⟩
    · split at refused
      · rename_i taken
        exact ⟨[], name, width, rest, rfl, .inr ⟨.inl taken, (Except.error.inj refused).symm⟩⟩
      · cases behind : placeAll rules (name :: seen) (stop rules (place rules free name width).offset width) rest with
        | ok placed =>
          simp only [behind, bind, Except.bind] at refused
          cases refused
        | error fault' =>
          simp only [behind, bind, Except.bind] at refused
          obtain rfl := Except.error.inj refused
          obtain ⟨before, name', width', after, rfl, why⟩ := ih behind
          refine ⟨(name, width) :: before, name', width', after, rfl, ?_⟩
          rcases why with empty | ⟨taken, same⟩
          · exact .inl empty
          · refine .inr ⟨?_, same⟩
            rw [List.map_cons, List.mem_cons]
            rcases taken with seen | earlier
            · rcases List.mem_cons.mp seen with own | old
              · exact .inr (.inl own)
              · exact .inl old
            · exact .inr (.inr earlier)

theorem ofMembersRefused {rules : Rules} {list : List (String × Nat)} {fault : Fault}
    (refused : ofMembers rules list = .error fault) : ∃ before name width after, list = before ++ (name, width) :: after ∧
      (width = 0 ∧ fault = .unsupportedWidth s!"record member `{name}`" 0 ∨
        name ∈ before.map (·.1) ∧ fault = .invalidCircuit (.duplicateMember name)) := by
  unfold ofMembers at refused
  cases placed : placeAll rules [] 0 list with
  | ok made => rw [placed] at refused; cases refused
  | error fault' =>
    rw [placed] at refused
    obtain rfl := Except.error.inj refused
    simpa only [List.not_mem_nil, false_or] using placeAllRefused placed

end Layout

/-- A record is laid out unless a width is zero or a name repeats, and is refused for the first such entry. Its members
have the names and widths of the list, in order, each with its own bits inside the record, found by name where they
stand, and one that is marked exclusive shares no byte with another. Natural containers begin on the first multiple of
their alignment behind the earlier ones, and the record ends on the first multiple of the largest alignment behind all;
packed members take whole bytes and bit-packed ones their bits, without gaps. -/
theorem layoutExtends (rules : Rules) (list : List (String × Nat)) :
    ((∃ fault, Layout.ofMembers rules list = .error fault) ↔ (∃ entry ∈ list, entry.2 = 0) ∨ ¬(list.map (·.1)).Nodup) ∧
    (∀ fault, Layout.ofMembers rules list = .error fault →
      ∃ before name width after, list = before ++ (name, width) :: after ∧
        (width = 0 ∧ fault = .unsupportedWidth s!"record member `{name}`" 0 ∨
          name ∈ before.map (·.1) ∧ fault = .invalidCircuit (.duplicateMember name))) ∧
    ∀ layout, Layout.ofMembers rules list = .ok layout → layout.Spans rules list ∧ layout.Follows rules := by
  have laid := @Layout.ofMembersIff rules list
  have refused : (∃ fault, Layout.ofMembers rules list = .error fault) ↔
      ¬∃ layout, Layout.ofMembers rules list = .ok layout := by
    cases Layout.ofMembers rules list <;> simp
  refine ⟨?_, fun fault => Layout.ofMembersRefused, fun layout ok => ?_⟩
  · rw [refused, laid, not_and_or, or_comm]
    simp
  · obtain ⟨placed, same, members⟩ := Layout.ofMembersPlaced ok
    exact ⟨same ▸ placed.spans (laid.mp ⟨layout, ok⟩).1 members, Layout.ofMembersFollows ok⟩

theorem paddedExtends : ∃ layout, Layout.ofMembers .natural [("a", 1), ("b", 130), ("c", 16), ("d", 40)] = .ok layout ∧
    layout.members.map (·.offset) = [0, 64, 256, 320] ∧ layout.size = 48 ∧
      layout.Spans .natural [("a", 1), ("b", 130), ("c", 16), ("d", 40)] ∧ layout.Natural := by
  obtain ⟨layout, ok, known⟩ := Result.okAny
    (x := Layout.ofMembers .natural [("a", 1), ("b", 130), ("c", 16), ("d", 40)])
    (p := fun layout => layout.members.map (·.offset) == [0, 64, 256, 320] && layout.size == 48) (by decide +kernel)
  rw [Bool.and_eq_true, beq_iff_eq, beq_iff_eq] at known
  obtain ⟨-, -, extends'⟩ := layoutExtends .natural [("a", 1), ("b", 130), ("c", 16), ("d", 40)]
  obtain ⟨spans, natural⟩ := extends' layout ok
  exact ⟨layout, ok, known.1, known.2, spans, natural⟩

end CircuitSim
