import CircuitSim.Proofs.Record
import Mathlib.Data.List.Induction

/-! A record is a map from its members to numbers of their widths, whatever shares the bytes of its buffer. Main
statement: `membersMapped`. -/
namespace CircuitSim

def Key.Means (members : List (String × Nat)) (i : Nat) : Key → Prop
  | .position index => index = i ∧ i < members.length
  | .name text => members[i]?.map (·.1) = some text

instance (members : List (String × Nat)) (i : Nat) : (key : Key) → Decidable (key.Means members i)
  | .position index => inferInstanceAs (Decidable (index = i ∧ i < members.length))
  | .name text => inferInstanceAs (Decidable (members[i]?.map (·.1) = some text))

namespace Record

inductive Payload
  | number (n : Nat)
  | word (n : UInt64)
  | bytes (data : Bytes)
  deriving DecidableEq, Repr

def Payload.toNat : Payload → Nat
  | number n => n
  | word n => n.toNat
  | bytes data => data.toNat

inductive Write
  | put (key : Key) (payload : Payload)
  | clear
  deriving DecidableEq, Repr

def attempt (record : Record) : Write → Except Fault Record
  | .put key (.number n) => record.set key n
  | .put key (.word n) => record.setWord key n.toNat
  | .put key (.bytes data) => record.setBytes key data
  | .clear => .ok record.clear

def perform (record : Record) (write : Write) : Record := (record.attempt write).toOption.getD record

def after (record : Record) (writes : List Write) : Record := writes.foldl perform record

def Write.number? (members : List (String × Nat)) (i : Nat) : Write → Option Nat
  | put key payload => if key.Means members i then some payload.toNat else none
  | clear => some 0

/-- The number that member `i` was given last; at first it has zero. -/
def lastGiven (members : List (String × Nat)) (i : Nat) (writes : List Write) : Nat :=
  (writes.reverse.findSome? (·.number? members i)).getD 0

theorem lastGivenSnoc (members : List (String × Nat)) (i : Nat) (writes : List Write) (write : Write) :
    lastGiven members i (writes ++ [write]) = (write.number? members i).getD (lastGiven members i writes) := by
  rw [lastGiven, List.reverse_concat, List.findSome?_cons]
  cases write.number? members i with
  | none => rfl
  | some n => rfl

structure Maps (record : Record) (members : List (String × Nat)) (numbers : Nat → Nat) : Prop where
  placed : record.layout.WellPlaced
  entries : record.layout.members.map (fun member => (member.name, member.width)) = members
  distinct : (members.map (·.1)).Nodup
  sized : record.data.size = record.layout.size
  values : ∀ i member, record.layout.members[i]? = some member → record.value member = numbers i % 2 ^ member.width
  spare : ∀ bit, (∀ member ∈ record.layout.members, ¬(member.offset ≤ bit ∧ bit < member.offset + member.width)) →
    record.data.bit bit = false

namespace Maps

variable {record : Record} {members : List (String × Nat)} {numbers : Nat → Nat} (maps : record.Maps members numbers)
include maps

theorem memberAt {i : Nat} {name : String} {width : Nat} (here : members[i]? = some (name, width)) :
    ∃ member, record.layout.members[i]? = some member ∧ member.name = name ∧ member.width = width := by
  rw [← maps.entries, List.getElem?_map] at here
  obtain ⟨member, found, same⟩ := Option.map_eq_some_iff.mp here
  obtain ⟨rfl, rfl⟩ := Prod.mk.inj same
  exact ⟨member, found, rfl, rfl⟩

theorem entryAt {i : Nat} {member : Member} (found : record.layout.members[i]? = some member) :
    members[i]? = some (member.name, member.width) := by
  rw [← maps.entries, List.getElem?_map, found, Option.map_some]

theorem positionIff {key : Key} {i : Nat} : record.position? key = some i ↔ key.Means members i := by
  have length : members.length = record.layout.members.length := by rw [← maps.entries, List.length_map]
  cases key with
  | position index =>
    rw [Key.Means, length, position?]
    constructor
    · intro found
      obtain ⟨inside, same⟩ := Option.ite_some_none_eq_some.mp found
      exact ⟨same, same ▸ inside⟩
    · rintro ⟨rfl, inside⟩
      exact if_pos inside
  | name name =>
    rw [Key.Means, position?]
    constructor
    · intro found
      obtain ⟨member, here, rfl⟩ := Layout.positionAt found
      rw [maps.entryAt here, Option.map_some]
    · intro named
      obtain ⟨⟨_, width⟩, here, rfl⟩ := Option.map_eq_some_iff.mp named
      obtain ⟨member, known, same, -⟩ := maps.memberAt here
      obtain ⟨index, found⟩ := Layout.positionFound (List.mem_of_getElem? known)
      obtain ⟨other, known', same'⟩ := Layout.positionAt found
      rw [← same, found]
      exact congrArg some (Result.indexInj maps.distinct (maps.entryAt known') (maps.entryAt known) same')

theorem memberMeant {key : Key} {i : Nat} {member : Member} (found : record.layout.members[i]? = some member)
    (means : key.Means members i) : record.member key = .ok member := by
  rw [Record.member, member?, maps.positionIff.mpr means, Option.bind_some, found]

theorem memberUnknown {key : Key} (unknown : ∀ i, ¬key.Means members i) :
    record.member key = .error (.unknownMember key.text) := by
  have missing : record.position? key = none :=
    Option.eq_none_iff_forall_ne_some.mpr fun i found => unknown i (maps.positionIff.mp found)
  rw [Record.member, member?, missing, Option.bind_none]

theorem meant {i : Nat} {key : Key} (means : key.Means members i) :
    ∃ member, record.layout.members[i]? = some member := by
  have listed : ∃ entry, members[i]? = some entry := by
    cases key with
    | position index => exact ⟨_, List.getElem?_eq_getElem means.2⟩
    | name text =>
      obtain ⟨entry, here, -⟩ := Option.map_eq_some_iff.mp means
      exact ⟨entry, here⟩
  obtain ⟨_, here⟩ := listed
  obtain ⟨member, found, -⟩ := maps.memberAt here
  exact ⟨member, found⟩

theorem inside {i : Nat} {member : Member} (here : record.layout.members[i]? = some member) :
    member.offset + member.width ≤ 8 * record.data.size := by
  rw [maps.sized]
  exact memberInside maps.placed (List.mem_of_getElem? here)

theorem getMeant {key : Key} {i : Nat} {member : Member} (here : record.layout.members[i]? = some member)
    (means : key.Means members i) : record.get key = .ok (numbers i % 2 ^ member.width) := by
  rw [get, maps.memberMeant here means, ← maps.values i member here]
  rfl

theorem getWordMeant {key : Key} {i : Nat} {member : Member} (here : record.layout.members[i]? = some member)
    (means : key.Means members i) : record.getWord key = .ok (numbers i % 2 ^ member.width % 2 ^ 64) := by
  have inside := maps.inside here
  have value : record.value member = record.data.field member.offset member.width :=
    valueField maps.placed maps.sized (List.mem_of_getElem? here)
  have low : (record.read { member.placement with width := min member.width Width.half }).toNat =
      record.data.field member.offset (min member.width 64) :=
    readBitsField (Nat.le_trans (Nat.add_le_add_left (Nat.min_le_left _ _) _) inside)
  have same : record.data.field member.offset (min member.width 64) =
      record.data.field member.offset member.width % 2 ^ 64 := by
    rcases Nat.le_total member.width 64 with narrow | wide
    · rw [Nat.min_eq_left narrow, Nat.mod_eq_of_lt]
      exact Nat.lt_of_lt_of_le (record.data.fieldLt _ _) (Nat.pow_le_pow_right (by decide) narrow)
    · rw [Nat.min_eq_right wide, Bytes.fieldLow _ wide]
  rw [getWord, maps.memberMeant here means, ← maps.values i member here, value, ← same, ← low]
  rfl

theorem setBytesMeant {key : Key} {i : Nat} {member : Member} (here : record.layout.members[i]? = some member)
    (means : key.Means members i) (value : Bytes) : record.setBytes key value =
      .ok ⟨record.layout, record.data.put member.offset member.width value.toNat⟩ := by
  have own : Key.Means members i (.position i) := ⟨rfl, (List.getElem?_eq_some_iff.mp (maps.entryAt here)).1⟩
  have same : record.member key = record.member (.position i) :=
    (maps.memberMeant here means).trans (maps.memberMeant here own).symm
  rw [setBytes, same]
  exact setBytesPut maps.placed maps.sized (List.mem_of_getElem? here) here value

theorem attemptMeant {key : Key} {i : Nat} {member : Member} (here : record.layout.members[i]? = some member)
    (means : key.Means members i) (payload : Payload) : record.attempt (.put key payload) =
      .ok ⟨record.layout, record.data.put member.offset member.width payload.toNat⟩ := by
  cases payload with
  | number n => rw [attempt, set, maps.setBytesMeant here means, ofNumberToNat, Payload.toNat]
  | word n => rw [attempt, setWord, maps.setBytesMeant here means, ofWordToNat n.toNat_lt, Payload.toNat]
  | bytes data => exact maps.setBytesMeant here means data

theorem attemptUnknown {key : Key} (unknown : ∀ i, ¬key.Means members i) (payload : Payload) :
    record.attempt (.put key payload) = .error (.unknownMember key.text) := by
  have refused : ∀ value, record.setBytes key value = .error (.unknownMember key.text) := by
    intro value
    rw [setBytes, maps.memberUnknown unknown]
    rfl
  cases payload with
  | number n => exact refused _
  | word n => exact refused _
  | bytes data => exact refused _

theorem put {i : Nat} {member : Member} (here : record.layout.members[i]? = some member) (n : Nat) :
    Maps ⟨record.layout, record.data.put member.offset member.width n⟩ members
      fun j => if j = i then n else numbers j := by
  have mem := List.mem_of_getElem? here
  have room := record.layout.rules.leRoom member.width
  refine ⟨maps.placed, maps.entries, maps.distinct, (record.data.putSize _ _ _).trans maps.sized, ?_, ?_⟩
  · intro j other known
    by_cases own : j = i
    · obtain rfl := Option.some.inj (here.symm.trans (own ▸ known))
      rw [if_pos own, Bytes.putMod]
      exact putOwn maps.placed mem maps.sized (Nat.le_refl _) room (Nat.mod_lt _ (Nat.two_pow_pos _))
    · rw [if_neg own, ← maps.values j other known]
      exact putOther maps.placed mem maps.sized room here known own
  · intro bit free
    rw [Bytes.putBitWithin (maps.inside here), if_neg (free member mem)]
    exact maps.spare bit free

theorem cleared : Maps record.clear members fun _ => 0 := by
  have sized : record.clear.data.size = record.layout.size := (Bytes.zerosSize _).trans maps.sized
  refine ⟨maps.placed, maps.entries, maps.distinct, sized, fun i member here => ?_, fun bit _ => Bytes.zerosBit _ bit⟩
  have zero : record.clear.data = Bytes.zeros record.layout.size := congrArg Bytes.zeros maps.sized
  rw [Nat.zero_mod]
  exact @valueZero record.clear maps.placed zero member (List.mem_of_getElem? here)

theorem performed (write : Write) : Maps (record.perform write) members
    fun i => (write.number? members i).getD (numbers i) := by
  cases write with
  | clear => exact maps.cleared
  | put key payload =>
    by_cases known : ∃ i, key.Means members i
    · obtain ⟨i, means⟩ := known
      obtain ⟨member, here⟩ := maps.meant means
      have given : (fun j => ((Write.put key payload).number? members j).getD (numbers j)) =
          fun j => if j = i then payload.toNat else numbers j := by
        funext j
        by_cases own : j = i
        · rw [if_pos own, Write.number?, if_pos (own ▸ means), Option.getD_some]
        · have other : ¬key.Means members j := fun means' => own
            (Option.some.inj ((maps.positionIff.mpr means').symm.trans (maps.positionIff.mpr means)))
          rw [if_neg own, Write.number?, if_neg other, Option.getD_none]
      rw [perform, maps.attemptMeant here means, given]
      exact maps.put here payload.toNat
    · have unknown := not_exists.mp known
      have kept : (fun j => ((Write.put key payload).number? members j).getD (numbers j)) = numbers := by
        funext j
        rw [Write.number?, if_neg (unknown j), Option.getD_none]
      rw [perform, maps.attemptUnknown unknown, kept]
      exact maps

end Maps

theorem freshMaps {rules : Rules} {members : List (String × Nat)} {record : Record}
    (made : ofMembers rules members = .ok record) : record.Maps members fun _ => 0 := by
  obtain ⟨layout, laidOut, rfl⟩ := Result.okMap made
  obtain ⟨placed, -, entries⟩ := Layout.ofMembersPlaced laidOut
  obtain ⟨distinct, -⟩ := Layout.ofMembersIff.mp ⟨layout, laidOut⟩
  refine ⟨placed, entries, distinct, Bytes.zerosSize _, fun i member here => ?_, fun bit _ => Bytes.zerosBit _ bit⟩
  rw [Nat.zero_mod]
  exact valueZero placed rfl member (List.mem_of_getElem? here)

theorem afterMaps {rules : Rules} {members : List (String × Nat)} {record : Record}
    (made : ofMembers rules members = .ok record) (writes : List Write) :
    (record.after writes).Maps members fun i => lastGiven members i writes := by
  induction writes using List.reverseRecOn with
  | nil => exact freshMaps made
  | append_singleton writes write ih =>
    simp only [lastGivenSnoc, after, List.foldl_concat]
    exact ih.performed write

/-- After any writes on a new record, by names or positions, a member has the number that it was given last since the
last clearing, cut to its width, and a word is the low 64 bits of that. A name and its position are one key. A key
of no member is refused, and the buffer stays as it is. All reads and writes stay in the buffer, and the bits of no
member stay zero. -/
theorem membersMapped (rules : Rules) (members : List (String × Nat)) (record : Record)
    (made : ofMembers rules members = .ok record) (writes : List Write) :
    let last := record.after writes
    (∀ key i name width, members[i]? = some (name, width) → key.Means members i →
      last.get key = .ok (lastGiven members i writes % 2 ^ width) ∧
      last.getWord key = .ok (lastGiven members i writes % 2 ^ width % 2 ^ 64) ∧
      ∀ payload, last.attempt (.put key payload) = last.attempt (.put (.position i) payload) ∧
        last.attempt (.put key payload) = .ok (record.after (writes ++ [.put key payload]))) ∧
    (∀ key, (∀ i, ¬key.Means members i) →
      last.get key = .error (.unknownMember key.text) ∧ last.getWord key = .error (.unknownMember key.text) ∧
      ∀ payload, last.attempt (.put key payload) = .error (.unknownMember key.text) ∧
        record.after (writes ++ [.put key payload]) = last) ∧
    last.layout.members.map (fun member => (member.name, member.width)) = members ∧
    (∀ member ∈ last.layout.members, (readBits last.data member.offset member.width).isSome ∧
      (readBits last.data member.offset (min member.width 64)).isSome ∧
      ∀ value, (writeBits last.data member.offset member.width value).isSome) ∧
    ∀ bit, (∀ member ∈ last.layout.members, ¬(member.offset ≤ bit ∧ bit < member.offset + member.width)) →
      last.data.bit bit = false := by
  intro last
  have maps : last.Maps members fun i => lastGiven members i writes := afterMaps made writes
  have next : ∀ write, record.after (writes ++ [write]) = last.perform write := fun write => List.foldl_concat ..
  refine ⟨?_, ?_, maps.entries, ?_, maps.spare⟩
  · intro key i name width here means
    obtain ⟨member, found, -, rfl⟩ := maps.memberAt here
    have own : Key.Means members i (.position i) := ⟨rfl, (List.getElem?_eq_some_iff.mp here).1⟩
    refine ⟨maps.getMeant found means, maps.getWordMeant found means, fun payload => ⟨?_, ?_⟩⟩
    · rw [maps.attemptMeant found means, maps.attemptMeant found own]
    · rw [next, perform, maps.attemptMeant found means]
      rfl
  · intro key unknown
    have missing := maps.memberUnknown unknown
    refine ⟨?_, ?_, fun payload => ⟨maps.attemptUnknown unknown payload, ?_⟩⟩
    · rw [get, missing]
      rfl
    · rw [getWord, missing]
      rfl
    · rw [next, perform, maps.attemptUnknown unknown]
      rfl
  · intro member mem
    obtain ⟨i, here⟩ := List.mem_iff_getElem?.mp mem
    have inside := maps.inside here
    obtain ⟨_, read, -⟩ := readBitsBit inside
    obtain ⟨_, read', -⟩ := readBitsBit (Nat.le_trans (Nat.add_le_add_left (Nat.min_le_left _ 64) _) inside)
    exact ⟨read ▸ rfl, read' ▸ rfl, fun value => writeBitsPut inside value ▸ rfl⟩

theorem wideMemberMapped :
    let members : List (String × Nat) := [("flag", 1), ("wide", 200), ("tail", 5)]
    let writes : List Write := [.put (.name "tail") (.word 31), .clear, .put (.position 1) (.bytes (Array.replicate 26 165)),
      .put (.name "none") (.number 1), .put (.name "flag") (.number 7), .put (.position 2) (.number 0)]
    ∃ record, ofMembers .bitPacked members = .ok record ∧
      (record.after writes).getWord (.name "wide") = .ok 0xa5a5a5a5a5a5a5a5 ∧
      (record.after writes).get (.name "flag") = .ok 1 ∧ (record.after writes).get (.position 2) = .ok 0 ∧
      (record.after writes).get (.position 3) = .error (.unknownMember "#3") := by
  intro members writes
  obtain ⟨record, made, -⟩ := Result.okAny (show (ofMembers .bitPacked members).toOption.any (fun _ => true) = true by
    decide +kernel)
  obtain ⟨known, unknown, -⟩ := membersMapped .bitPacked members record made writes
  have wide := (known (.name "wide") 1 "wide" 200 rfl rfl).2.1
  have flag := (known (.name "flag") 0 "flag" 1 rfl rfl).1
  have tail := (known (.position 2) 2 "tail" 5 rfl ⟨rfl, by decide⟩).1
  have past := (unknown (.position 3) fun i means => by
    obtain ⟨rfl, inside⟩ := means
    exact absurd inside (by decide)).1
  exact ⟨record, made, wide.trans (by decide +kernel), flag.trans (by decide +kernel), tail.trans (by decide +kernel), past⟩

end Record

end CircuitSim
