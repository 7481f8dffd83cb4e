import CircuitSim.Proofs.Pins
import Mathlib.Data.List.Perm.Subperm

/-! A walk along aliases ends at an origin whenever there is one to be found: it passes no slot twice, and the slots of
a design are as many as the walk has steps for. Main statement: `originIff`. -/
namespace CircuitSim

section Walk

variable {σ : Type} {driver : σ → Driver σ}

inductive LeadsTo (driver : σ → Driver σ) : σ → Origin → Prop
  | origin {slot : σ} {origin : Origin} (drives : driver slot = .origin origin) : LeadsTo driver slot origin
  | along {slot next : σ} {origin : Origin} (drives : driver slot = .alias next) (rest : LeadsTo driver next origin) :
      LeadsTo driver slot origin

abbrev Aliased (driver : σ → Driver σ) (slot next : σ) : Prop := driver slot = .alias next

theorem LeadsTo.noLoop {slot : σ} {origin : Origin} (leads : LeadsTo driver slot origin) :
    ¬Relation.TransGen (Aliased driver) slot slot := by
  induction leads with
  | origin drives =>
    intro loop
    obtain ⟨next, step, -⟩ := Relation.TransGen.head'_iff.mp loop
    exact nomatch drives.symm.trans step
  | along drives _ ih =>
    intro loop
    obtain ⟨next, step, back⟩ := Relation.TransGen.head'_iff.mp loop
    obtain rfl := Driver.alias.inj (drives.symm.trans step)
    exact ih (.tail' back drives)

variable [DecidableEq σ]

theorem followEnds {all : List σ} (listed : ∀ slot next, driver slot = .alias next → slot ∈ all) {slot : σ}
    {origin : Origin} (leads : LeadsTo driver slot origin) {steps : Nat} {passed : List σ} (distinct : passed.Nodup)
    (behind : ∀ before ∈ passed, before ∈ all ∧ Relation.TransGen (Aliased driver) before slot)
    (enough : all.length < steps + passed.length) : follow driver steps passed slot = .origin origin := by
  have fewer : passed.length ≤ all.length :=
    (List.subperm_of_subset distinct fun before mem => (behind before mem).1).length_le
  induction leads generalizing steps passed with
  | origin drives =>
    cases steps with
    | zero => omega
    | succ steps => rw [follow, drives]
  | @along slot next origin drives rest ih =>
    cases steps with
    | zero => omega
    | succ steps =>
      have fresh : slot ∉ passed := fun mem => (LeadsTo.along drives rest).noLoop (behind slot mem).2
      have longer : (passed ++ [slot]).Nodup := by
        refine List.nodup_append.mpr ⟨distinct, List.nodup_singleton slot, ?_⟩
        rintro before mem _ own rfl
        exact fresh (List.mem_singleton.mp own ▸ mem)
      have behind' : ∀ before ∈ passed ++ [slot], before ∈ all ∧ Relation.TransGen (Aliased driver) before next := by
        intro before mem
        rcases List.mem_append.mp mem with earlier | own
        · exact ⟨(behind before earlier).1, (behind before earlier).2.tail drives⟩
        · obtain rfl := List.mem_singleton.mp own
          exact ⟨listed before next drives, .single drives⟩
      rw [follow, drives]
      simp only [if_neg fresh]
      refine ih longer behind' ?_ (List.subperm_of_subset longer fun before mem => (behind' before mem).1).length_le
      rw [List.length_append, List.length_singleton]
      omega

end Walk

namespace Hierarchy

def slotsIn (place : Place) : Nat → Hierarchy → List Slot
  | _, empty => []
  | i, primitive _ p rest => (List.range p.inputs.length).map (.input (i :: place)) ++ slotsIn place (i + 1) rest
  | i, scope _ _ interface _ inner rest =>
    (List.range interface.inputs.length).map (.input (i :: place)) ++
      ((List.range interface.outputs.length).map (.output (i :: place)) ++
        (slotsIn (i :: place) 0 inner ++ slotsIn place (i + 1) rest))

theorem slotsInLength (body : Hierarchy) (place : Place) (i : Nat) : (body.slotsIn place i).length = body.slots := by
  induction body generalizing place i with
  | empty => rfl
  | primitive name p rest ih => simp [slotsIn, slots, ih]
  | scope name definition interface wires inner rest ih ih' =>
    simp only [slotsIn, slots, List.length_append, List.length_map, List.length_range, ih, ih']
    omega

end Hierarchy

def Entry.slotsAt (place : Place) : Entry → List Slot
  | primitive _ p => (List.range p.inputs.length).map (.input place)
  | scope _ _ interface _ inner =>
    (List.range interface.inputs.length).map (.input place) ++
      ((List.range interface.outputs.length).map (.output place) ++ inner.slotsIn place 0)

theorem Entry.inputListed {entry : Entry} {place : Place} {k : Nat} (inside : k < entry.interface.inputs.length) :
    Slot.input place k ∈ entry.slotsAt place := by
  cases entry with
  | primitive name p =>
    have pins : k < p.inputs.length := by simpa [Entry.interface, Primitive.interface] using inside
    exact List.mem_map.mpr ⟨k, List.mem_range.mpr pins, rfl⟩
  | scope => exact List.mem_append_left _ (List.mem_map.mpr ⟨k, List.mem_range.mpr inside, rfl⟩)

theorem Hierarchy.entrySlots {body : Hierarchy} {place : Place} {i j : Nat} {entry : Entry}
    (here : body.get? j = some entry) : entry.slotsAt ((i + j) :: place) ⊆ body.slotsIn place i := by
  induction body generalizing i j with
  | empty => exact nomatch here
  | primitive name p rest ih =>
    cases j with
    | zero =>
      cases here
      exact fun slot mem => List.mem_append_left _ mem
    | succ j =>
      have behind := @ih (i + 1) j here
      rw [Nat.add_assoc, Nat.add_comm 1 j] at behind
      exact fun slot mem => List.mem_append_right _ (behind mem)
  | scope name definition interface wires inner rest _ ih =>
    rw [slotsIn, ← List.append_assoc, ← List.append_assoc, List.append_assoc (List.map _ _)]
    cases j with
    | zero =>
      cases here
      exact fun slot mem => List.mem_append_left _ mem
    | succ j =>
      have behind := @ih (i + 1) j here
      rw [Nat.add_assoc, Nat.add_comm 1 j] at behind
      exact fun slot mem => List.mem_append_right _ (behind mem)

namespace Design

variable {design : Design}

def allSlots (design : Design) : List Slot :=
  (List.range design.interface.inputs.length).map (.input []) ++
    ((List.range design.interface.outputs.length).map (.output []) ++ design.body.slotsIn [] 0)

theorem allSlotsLength : design.allSlots.length = design.slots := by
  simp only [allSlots, slots, List.length_append, List.length_map, List.length_range, Hierarchy.slotsInLength]
  omega

theorem slotsBelow {place : Place} {wires : List Wire} {body : Hierarchy}
    (found : design.scope? place = some (wires, body)) : body.slotsIn place 0 ⊆ design.allSlots := by
  induction place generalizing wires body with
  | nil =>
    cases found
    exact fun _ mem => List.mem_append_right _ (List.mem_append_right _ mem)
  | cons i place ih =>
    unfold scope? at found
    split at found
    · rename_i outerWires outer outerFound
      split at found
      · rename_i name child interface wires' inner here
        cases found
        have own := @Hierarchy.entrySlots outer place 0 i _ here
        rw [Nat.zero_add] at own
        exact fun slot mem => ih outerFound (own (List.mem_append_right _ (List.mem_append_right _ mem)))
      · cases found
    · cases found

theorem itemSlots {place : Place} {entry : Entry} (here : design.item? place = some entry) :
    entry.slotsAt place ⊆ design.allSlots := by
  cases place with
  | nil => exact nomatch here
  | cons i place =>
    obtain ⟨wires, body, found, at'⟩ := itemScope here
    have own := @Hierarchy.entrySlots body place 0 i entry at'
    rw [Nat.zero_add] at own
    exact fun slot mem => slotsBelow found (own mem)

theorem slotListed {slot : Slot} {pin : (List String × String) × Nat} (known : design.slot? slot = some pin)
    (other : ∀ place k name primitive, slot = .output place k → design.item? place ≠ some (.primitive name primitive)) :
    slot ∈ design.allSlots := by
  cases slot with
  | input place k =>
    have present : design.Present place := (slotPort known).1
    obtain ⟨port, here, -⟩ := Option.map_eq_some_iff.mp known
    obtain ⟨inside, -⟩ := List.getElem?_eq_some_iff.mp here
    rcases present with rfl | ⟨entry, item⟩
    · exact List.mem_append_left _ (List.mem_map.mpr ⟨k, List.mem_range.mpr inside, rfl⟩)
    · rw [interfaceIn item] at inside
      exact itemSlots item (Entry.inputListed inside)
  | output place k =>
    have present : design.Present place := (slotPort known).1
    obtain ⟨port, here, -⟩ := Option.map_eq_some_iff.mp known
    obtain ⟨inside, -⟩ := List.getElem?_eq_some_iff.mp here
    rcases present with rfl | ⟨entry, item⟩
    · exact List.mem_append_right _ (List.mem_append_left _ (List.mem_map.mpr ⟨k, List.mem_range.mpr inside, rfl⟩))
    · rw [interfaceIn item] at inside
      cases entry with
      | primitive name primitive => exact absurd item (other _ k name primitive rfl)
      | scope =>
        refine itemSlots item (List.mem_append_right _ (List.mem_append_left _ ?_))
        exact List.mem_map.mpr ⟨k, List.mem_range.mpr inside, rfl⟩

theorem aliasSink {slot next : Slot} (drives : design.driver slot = .alias next) :
    ∃ place terminal, slot = sinkSlot place terminal ∧ design.driverIn place terminal = .alias next := by
  cases slot with
  | output place k => exact ⟨place, .port k, rfl, drives⟩
  | input place k =>
    cases place with
    | cons i place => exact ⟨place, .pin i k, rfl, drives⟩
    | nil => exact nomatch drives

theorem driverInAlias {place : Place} {terminal : Terminal} {next : Slot}
    (drives : design.driverIn place terminal = .alias next) :
    ∃ wires body, design.scope? place = some (wires, body) ∧ ((∃ k, next = .input place k) ∨
      ∃ i k name definition interface inside inner, next = .output (i :: place) k ∧
        body.get? i = some (.scope name definition interface inside inner)) := by
  cases found : design.scope? place with
  | none =>
    rw [driverIn, found] at drives
    cases drives
  | some scope =>
    obtain ⟨wires, body⟩ := scope
    refine ⟨wires, body, rfl, ?_⟩
    rw [driverInAt found] at drives
    split at drives
    · cases drives
    · rename_i wire hit
      cases spot : wire.source with
      | port k =>
        rw [spot] at drives
        cases drives
        exact .inl ⟨k, rfl⟩
      | pin i k =>
        rw [spot, sourceDriver] at drives
        split at drives
        · cases drives
        · rename_i here
          cases drives
          exact .inr ⟨i, k, _, _, _, _, _, rfl, here⟩
        · cases drives

theorem aliasOutput {slot : Slot} {place : Place} {k : Nat} (drives : design.driver slot = .alias (.output place k))
    (name : String) (primitive : Primitive) : design.item? place ≠ some (.primitive name primitive) := by
  intro item
  obtain ⟨outer, terminal, -, drives⟩ := aliasSink drives
  obtain ⟨wires, body, found, ⟨j, same⟩ | ⟨i, j, _, _, _, _, _, same, here⟩⟩ := driverInAlias drives
  · cases same
  · cases same
    cases here.symm.trans ((entryIn found).symm.trans item)

theorem makesLeads {slot : Slot} {origin : Origin} (made : design.Makes slot origin)
    (driven : ∀ place k name primitive, slot = .output place k → design.item? place ≠ some (.primitive name primitive)) :
    LeadsTo design.driver slot origin := by
  induction made with
  | origin drives => exact .origin drives
  | along drives _ ih =>
    refine .along drives (ih fun place k name primitive same => ?_)
    exact aliasOutput (same ▸ drives) name primitive
  | output here => exact absurd here (driven _ 0 _ _ rfl)

theorem Of.aliasListed {circuit : Circuit} {library : Library} {root : Nat} (of : design.Of circuit library root)
    {slot next : Slot} (drives : design.driver slot = .alias next) :
    slot ∈ design.allSlots ∧ next ∈ design.allSlots := by
  obtain ⟨place, terminal, rfl, inside⟩ := aliasSink drives
  have there : design.driverIn place terminal ≠ .undriven := by
    rw [inside]
    exact nofun
  obtain ⟨source, sink, width, known', known, -⟩ := of.driverInJoined there
  rw [inside] at known'
  refine ⟨slotListed known fun place' k name primitive same item => ?_,
    slotListed known' fun place' k name primitive same => ?_⟩
  · rw [same, outputUndriven item k] at drives
    exact nomatch drives
  · exact aliasOutput (same ▸ drives) name primitive

theorem Of.originIff {circuit : Circuit} {library : Library} {root : Nat} (of : design.Of circuit library root)
    {slot : Slot}
    (driven : ∀ place k name primitive, slot = .output place k → design.item? place ≠ some (.primitive name primitive))
    {origin : Origin} : design.origin slot = .ok origin ↔ design.Makes slot origin := by
  constructor
  · exact originMakes
  · intro made
    have enough : design.allSlots.length < design.slots + 2 + ([] : List Slot).length := by
      rw [allSlotsLength, List.length_nil]
      omega
    have listed : ∀ slot next, design.driver slot = .alias next → slot ∈ design.allSlots :=
      fun _ _ drives => (of.aliasListed drives).1
    rw [Design.origin, followEnds listed (makesLeads made driven) List.nodup_nil nofun enough]

end Design

end CircuitSim
