import CircuitSim.Proofs.Following

/-! The signals of a design. Each is made at one origin, an input of the design or a primitive's output, and nets
lead from there to the pins that it reaches. -/
namespace CircuitSim.Design

inductive Makes (design : Design) : Slot → Origin → Prop
  | origin {slot : Slot} {origin : Origin} (drives : design.driver slot = .origin origin) : Makes design slot origin
  | along {slot next : Slot} {origin : Origin} (drives : design.driver slot = .alias next)
      (made : Makes design next origin) : Makes design slot origin
  | output {place : Place} {name : String} {primitive : Primitive}
      (here : design.item? place = some (.primitive name primitive)) : Makes design (.output place 0) (.primitive place)

variable {design : Design} {slot : Slot} {origin : Origin}

theorem scopeNone {place : Place} {name : String} {primitive : Primitive}
    (here : design.item? place = some (.primitive name primitive)) : design.scope? place = none := by
  cases place with
  | nil => exact nomatch here
  | cons i place =>
    obtain ⟨wires, body, found, known⟩ := itemScope here
    rw [scope?, found]
    simp only [known]

theorem outputUndriven {place : Place} {name : String} {primitive : Primitive}
    (here : design.item? place = some (.primitive name primitive)) (k : Nat) :
    design.driver (.output place k) = .undriven := by
  rw [driver, driverIn, scopeNone here]

theorem driverOrigin (drives : design.driver slot = .origin origin) :
    (∃ k, slot = .input [] k ∧ origin = .input k) ∨
      ∃ place name primitive, origin = .primitive place ∧ design.item? place = some (.primitive name primitive) := by
  have inside : ∀ place terminal, design.driverIn place terminal = .origin origin →
      ∃ place name primitive, origin = .primitive place ∧ design.item? place = some (.primitive name primitive) := by
    intro place terminal drives
    cases found : design.scope? place with
    | none =>
      rw [driverIn, found] at drives
      cases drives
    | some scope =>
      obtain ⟨wires, body⟩ := scope
      rw [driverInAt found] at drives
      split at drives
      · cases drives
      · rename_i wire hit
        cases spot : wire.source with
        | port k =>
          rw [spot] at drives
          cases drives
        | pin i k =>
          rw [spot, sourceDriver] at drives
          split at drives
          · rename_i name primitive here
            cases drives
            exact ⟨_, name, primitive, rfl, (entryIn found).trans here⟩
          · cases drives
          · cases drives
  cases slot with
  | output place k => exact .inr (inside place (.port k) drives)
  | input place k =>
    cases place with
    | cons i place => exact .inr (inside place (.pin i k) drives)
    | nil =>
      cases drives
      exact .inl ⟨k, rfl, rfl⟩

theorem makesUnique {other : Origin} (made : design.Makes slot origin) (made' : design.Makes slot other) :
    origin = other := by
  induction made with
  | origin drives =>
    cases made' with
    | origin drives' => exact Driver.origin.inj (drives.symm.trans drives')
    | along drives' => exact nomatch drives.symm.trans drives'
    | output here => exact nomatch drives.symm.trans (outputUndriven here 0)
  | along drives _ ih =>
    cases made' with
    | origin drives' => exact nomatch drives.symm.trans drives'
    | along drives' rest =>
      have same := Driver.alias.inj (drives.symm.trans drives')
      exact ih (same ▸ rest)
    | output here => exact nomatch drives.symm.trans (outputUndriven here 0)
  | output here =>
    cases made' with
    | origin drives' => exact nomatch drives'.symm.trans (outputUndriven here 0)
    | along drives' => exact nomatch drives'.symm.trans (outputUndriven here 0)
    | output => rfl

theorem followMakes {steps : Nat} {passed : List Slot} (ends : follow design.driver steps passed slot = .origin origin) :
    design.Makes slot origin := by
  induction steps generalizing passed slot with
  | zero => exact nomatch ends
  | succ steps ih =>
    unfold follow at ends
    split at ends
    · rename_i drives
      cases ends
      exact .origin drives
    · exact nomatch ends
    · rename_i drives
      split at ends
      · exact nomatch ends
      · exact .along drives (ih ends)

theorem makesPrimitive {place : Place} (made : design.Makes slot (.primitive place)) :
    ∃ name primitive, design.item? place = some (.primitive name primitive) := by
  generalize known : Origin.primitive place = origin at made
  induction made with
  | origin drives =>
    subst known
    rcases driverOrigin drives with ⟨k, -, same⟩ | ⟨_, name, primitive, same, here⟩
    · exact nomatch same
    · cases same
      exact ⟨name, primitive, here⟩
  | along _ _ ih => exact ih known
  | output here =>
    cases known
    exact ⟨_, _, here⟩

theorem originMakes (ok : design.origin slot = .ok origin) : design.Makes slot origin := by
  unfold Design.origin at ok
  split at ok
  · rename_i ends
    cases ok
    exact followMakes ends
  · exact nomatch ok
  · exact nomatch ok

theorem outputOrigin {place : Place} {name : String} {primitive : Primitive}
    (here : design.item? place = some (.primitive name primitive)) :
    design.slot? (.output place 0) = design.origin? (.primitive place) := by
  rw [slot?, interfaceIn here]
  simp only [origin?, here]
  rfl

theorem originSlot {pin : List String × String} {width : Nat} (known : design.origin? origin = some (pin, width)) :
    ∃ slot, design.slot? slot = some (pin, width) ∧ design.Makes slot origin := by
  cases origin with
  | input k => exact ⟨.input [] k, known, .origin rfl⟩
  | primitive place =>
    have originAt := known
    simp only [origin?] at known
    split at known
    · rename_i name primitive here
      exact ⟨.output place 0, (outputOrigin here).trans originAt, .output here⟩
    · cases known

theorem Of.makesJoined {circuit : Circuit} {library : Library} {root : Nat} (of : design.Of circuit library root)
    (made : design.Makes slot origin) {pin : List String × String} {width : Nat}
    (known : design.slot? slot = some (pin, width)) : ∃ source, design.origin? origin = some (source, width) ∧
      Relation.ReflTransGen (circuit.Joined root) source pin := by
  induction made generalizing pin with
  | origin drives =>
    obtain ⟨source, driverAt, joined⟩ := of.driverJoined known (by rw [drives]; exact nofun)
    rw [drives] at driverAt
    exact ⟨source, driverAt, joined⟩
  | along drives _ ih =>
    obtain ⟨between, driverAt, joined⟩ := of.driverJoined known (by rw [drives]; exact nofun)
    rw [drives] at driverAt
    obtain ⟨source, originAt, before⟩ := ih driverAt
    exact ⟨source, originAt, before.trans joined⟩
  | output here => exact ⟨pin, (outputOrigin here).symm.trans known, .refl⟩

end CircuitSim.Design
