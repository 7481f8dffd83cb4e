import CircuitSim.Proofs.Walking

/-! Walks along aliases end, whatever the aliases are: at an origin, at a slot without a driver, or at a slot that was
passed before. In a design every loop of aliases goes through an input of an instance that has wires inside it, so no
graph is made of a design with a loop, also if nothing reads it. Main statement: `loopsFound`. -/
namespace CircuitSim

section Walk

variable {σ : Type} {driver : σ → Driver σ}

/-- A slot, and all that it takes its value from, one alias after the other. -/
abbrev Chain (driver : σ → Driver σ) : σ → σ → Prop := Relation.ReflTransGen (Aliased driver)

inductive Walks (driver : σ → Driver σ) : List σ → σ → Nat → Ending σ → Prop
  | origin {passed : List σ} {slot : σ} {origin : Origin} (drives : driver slot = .origin origin) :
      Walks driver passed slot 1 (.origin origin)
  | undriven {passed : List σ} {slot : σ} (drives : driver slot = .undriven) :
      Walks driver passed slot 1 (.undriven slot)
  | again {passed : List σ} {slot next : σ} (drives : driver slot = .alias next) (known : slot ∈ passed) :
      Walks driver passed slot 1 (.loop passed)
  | along {passed : List σ} {slot next : σ} {visits : Nat} {ending : Ending σ} (drives : driver slot = .alias next)
      (fresh : slot ∉ passed) (rest : Walks driver (passed ++ [slot]) next visits ending) :
      Walks driver passed slot (visits + 1) ending

theorem Walks.follows [DecidableEq σ] {passed : List σ} {slot : σ} {visits : Nat} {ending : Ending σ}
    (walks : Walks driver passed slot visits ending) {steps : Nat} (enough : visits ≤ steps) :
    follow driver steps passed slot = ending := by
  induction walks generalizing steps with
  | origin drives | undriven drives =>
    obtain ⟨rest, rfl⟩ := Nat.exists_eq_add_of_le' enough
    rw [follow, drives]
  | again drives known =>
    obtain ⟨rest, rfl⟩ := Nat.exists_eq_add_of_le' enough
    rw [follow, drives]
    simp only [if_pos known]
  | along drives fresh _ ih =>
    obtain ⟨rest, rfl⟩ := Nat.exists_eq_add_of_le' enough
    rw [← Nat.add_assoc, follow, drives]
    simp only [if_neg fresh]
    exact ih (Nat.le_add_left _ rest)

theorem walkEnds [DecidableEq σ] {all : List σ}
    (closed : ∀ slot ∈ all, ∀ next, driver slot = .alias next → next ∈ all) {passed : List σ} {slot : σ}
    (distinct : passed.Nodup) (inside : passed ⊆ all) (mem : slot ∈ all) :
    ∃ visits ending, visits + passed.length ≤ all.length + 1 ∧ Walks driver passed slot visits ending := by
  have fits := (List.subperm_of_subset distinct inside).length_le
  cases drives : driver slot with
  | origin origin => exact ⟨1, _, by omega, .origin drives⟩
  | undriven => exact ⟨1, _, by omega, .undriven drives⟩
  | «alias» next =>
    by_cases known : slot ∈ passed
    · exact ⟨1, _, by omega, .again drives known⟩
    · have distinct' : (passed ++ [slot]).Nodup :=
        List.nodup_append_comm.mpr (List.nodup_cons.mpr ⟨known, distinct⟩)
      have inside' : passed ++ [slot] ⊆ all :=
        List.append_subset.mpr ⟨inside, List.cons_subset.mpr ⟨mem, List.nil_subset all⟩⟩
      have longer := (List.subperm_of_subset distinct' inside').length_le
      rw [List.length_append, List.length_singleton] at longer
      obtain ⟨visits, ending, bound, rest⟩ := walkEnds closed distinct' inside' (closed slot mem next drives)
      rw [List.length_append, List.length_singleton] at bound
      exact ⟨visits + 1, ending, by omega, .along drives known rest⟩
termination_by all.length - passed.length
decreasing_by
  rw [List.length_append, List.length_singleton] at longer ⊢
  omega

structure Trail (driver : σ → Driver σ) (start : σ) (passed : List σ) (slot : σ) : Prop where
  distinct : passed.Nodup
  here : Chain driver start slot
  behind : ∀ before ∈ passed, Chain driver start before
  onward : ∀ before ∈ passed, ∃ next, driver before = .alias next ∧ (next ∈ passed ∨ next = slot)
  began : start ∈ passed ∨ start = slot

namespace Trail

theorem start (slot : σ) : Trail driver slot [] slot :=
  ⟨List.nodup_nil, .refl, nofun, nofun, .inr rfl⟩

variable {start slot next : σ} {passed : List σ} (trail : Trail driver start passed slot)
include trail

theorem along (drives : driver slot = .alias next) (fresh : slot ∉ passed) :
    Trail driver start (passed ++ [slot]) next := by
  have own : slot ∈ passed ++ [slot] := List.mem_append_right passed List.mem_cons_self
  refine ⟨List.nodup_append_comm.mpr (List.nodup_cons.mpr ⟨fresh, trail.distinct⟩), trail.here.tail drives, ?_, ?_, ?_⟩
  · intro before mem
    rcases List.mem_append.mp mem with earlier | last
    · exact trail.behind before earlier
    · exact List.mem_singleton.mp last ▸ trail.here
  · intro before mem
    rcases List.mem_append.mp mem with earlier | last
    · obtain ⟨after, step, inside | rfl⟩ := trail.onward before earlier
      · exact ⟨after, step, .inl (List.mem_append_left _ inside)⟩
      · exact ⟨after, step, .inl own⟩
    · exact ⟨next, List.mem_singleton.mp last ▸ drives, .inr rfl⟩
  · rcases trail.began with earlier | rfl
    · exact .inl (List.mem_append_left _ earlier)
    · exact .inl own

theorem whole (known : slot ∈ passed) (other : σ) : other ∈ passed ↔ Chain driver start other := by
  constructor
  · exact trail.behind other
  · intro chain
    induction chain with
    | refl =>
      rcases trail.began with earlier | rfl
      · exact earlier
      · exact known
    | tail _ step ih =>
      obtain ⟨next, drives, inside⟩ := trail.onward _ ih
      obtain rfl := Driver.alias.inj (drives.symm.trans step)
      rcases inside with earlier | rfl
      · exact earlier
      · exact known

end Trail

theorem chainEnd {slot last last' : σ} (chain : Chain driver slot last) (chain' : Chain driver slot last')
    (ends : ∀ next, driver last ≠ .alias next) (ends' : ∀ next, driver last' ≠ .alias next) : last = last' := by
  have unique : Relator.RightUnique (Aliased driver) := fun _ _ _ step step' =>
    Driver.alias.inj (step.symm.trans step')
  rcases chain.total_of_right_unique unique chain' with on | back
  · rcases on.cases_head with same | ⟨next, step, -⟩
    · exact same
    · exact absurd step (ends next)
  · rcases back.cases_head with same | ⟨next, step, -⟩
    · exact same.symm
    · exact absurd step (ends' next)

/-- What the ending of a walk says of the chain of its first slot, and what of the chain decides the ending. -/
structure Settled (driver : σ → Driver σ) (slot : σ) (ending : Ending σ) : Prop where
  origin : ∀ origin, ending = .origin origin ↔ ∃ last, Chain driver slot last ∧ driver last = .origin origin
  undriven : ∀ last, ending = .undriven last ↔ Chain driver slot last ∧ driver last = .undriven
  loop : (∃ passed, ending = .loop passed) ↔ ∀ last, Chain driver slot last → ∃ next, driver last = .alias next
  passed : ∀ passed, ending = .loop passed → passed.Nodup ∧ ∀ other, other ∈ passed ↔ Chain driver slot other

theorem chainDecided {slot last : σ} (chain : Chain driver slot last) (ends : ∀ next, driver last ≠ .alias next) :
    (∀ origin, (∃ last', Chain driver slot last' ∧ driver last' = .origin origin) ↔ driver last = .origin origin) ∧
    (∀ last', Chain driver slot last' ∧ driver last' = .undriven ↔ last = last' ∧ driver last = .undriven) ∧
    ¬∀ last', Chain driver slot last' → ∃ next, driver last' = .alias next := by
  refine ⟨fun origin => ⟨?_, fun drives => ⟨last, chain, drives⟩⟩, fun last' => ⟨?_, ?_⟩, fun endless => ?_⟩
  · rintro ⟨last', chain', drives⟩
    obtain rfl := chainEnd chain chain' ends fun next step => nomatch drives.symm.trans step
    exact drives
  · rintro ⟨chain', drives⟩
    obtain rfl := chainEnd chain chain' ends fun next step => nomatch drives.symm.trans step
    exact ⟨rfl, drives⟩
  · rintro ⟨rfl, drives⟩
    exact ⟨chain, drives⟩
  · obtain ⟨next, step⟩ := endless last chain
    exact ends next step

theorem settledOrigin {slot last : σ} {origin : Origin} (chain : Chain driver slot last)
    (drives : driver last = .origin origin) : Settled driver slot (.origin origin) := by
  obtain ⟨origins, undriven, ended⟩ := chainDecided chain fun next step => nomatch drives.symm.trans step
  refine ⟨fun origin' => ?_, fun last' => ?_, iff_of_false ?_ ended, nofun⟩
  · rw [origins, drives, Ending.origin.injEq, Driver.origin.injEq]
  · rw [undriven, drives]
    simp
  · simp

theorem settledUndriven {slot last : σ} (chain : Chain driver slot last) (drives : driver last = .undriven) :
    Settled driver slot (.undriven last) := by
  obtain ⟨origins, undriven, ended⟩ := chainDecided chain fun next step => nomatch drives.symm.trans step
  refine ⟨fun origin => ?_, fun last' => ?_, iff_of_false ?_ ended, nofun⟩
  · rw [origins, drives]
    simp
  · rw [undriven, Ending.undriven.injEq, and_iff_left drives]
  · simp

theorem settledLoop {slot : σ} {passed : List σ} (distinct : passed.Nodup)
    (whole : ∀ other, other ∈ passed ↔ Chain driver slot other)
    (endless : ∀ last, Chain driver slot last → ∃ next, driver last = .alias next) :
    Settled driver slot (.loop passed) := by
  refine ⟨fun origin => ⟨nofun, ?_⟩, fun last => ⟨nofun, ?_⟩, ⟨fun _ => endless, fun _ => ⟨passed, rfl⟩⟩, ?_⟩
  · rintro ⟨last, chain, drives⟩
    obtain ⟨next, step⟩ := endless last chain
    exact nomatch drives.symm.trans step
  · rintro ⟨chain, drives⟩
    obtain ⟨next, step⟩ := endless last chain
    exact nomatch drives.symm.trans step
  · intro passed' same
    cases same
    exact ⟨distinct, whole⟩

theorem Walks.settled {start slot : σ} {passed : List σ} {visits : Nat} {ending : Ending σ}
    (walks : Walks driver passed slot visits ending) (trail : Trail driver start passed slot) :
    Settled driver start ending := by
  induction walks with
  | origin drives => exact settledOrigin trail.here drives
  | undriven drives => exact settledUndriven trail.here drives
  | again _ known =>
    have whole := trail.whole known
    refine settledLoop trail.distinct whole fun last chain => ?_
    obtain ⟨next, step, -⟩ := trail.onward last ((whole last).mpr chain)
    exact ⟨next, step⟩
  | along drives fresh _ ih => exact ih (trail.along drives fresh)

theorem walkSettles [DecidableEq σ] {all : List σ}
    (closed : ∀ slot ∈ all, ∀ next, driver slot = .alias next → next ∈ all) {slot : σ} (mem : slot ∈ all) :
    ∃ visits ending, visits ≤ all.length + 1 ∧ Walks driver [] slot visits ending ∧
      (∀ steps, visits ≤ steps → follow driver steps [] slot = ending) ∧ Settled driver slot ending := by
  obtain ⟨visits, ending, bound, walks⟩ := walkEnds closed List.nodup_nil (List.nil_subset all) mem
  exact ⟨visits, ending, bound, walks, fun steps enough => walks.follows enough, walks.settled (.start slot)⟩

end Walk

namespace Design

variable {design : Design}

def ScopeInput (design : Design) (slot : Slot) : Prop :=
  ∃ place k name definition interface wires inner, slot = .input place k ∧
    design.item? place = some (.scope name definition interface wires inner) ∧ k < interface.inputs.length

theorem originSettled {slot : Slot} {ending : Ending Slot}
    (walked : follow design.driver (design.slots + 2) [] slot = ending) (settled : Settled design.driver slot ending) :
    (∀ origin, design.origin slot = .ok origin ↔
      ∃ last, Chain design.driver slot last ∧ design.driver last = .origin origin) ∧
    (∀ name, design.origin slot = .error (.undriven name) ↔
      ∃ last, Chain design.driver slot last ∧ design.driver last = .undriven ∧ design.slotName last = name) ∧
    ((∃ names, design.origin slot = .error (.combinationalCycle names)) ↔
      ∀ last, Chain design.driver slot last → ∃ next, design.driver last = .alias next) := by
  rw [Design.origin, walked, ← settled.loop]
  simp only [← and_assoc, ← settled.origin, ← settled.undriven]
  cases ending with
  | origin | undriven | loop => simp

theorem aliasDeeper {slot next : Slot} (drives : design.driver slot = .alias next) :
    (∃ place k, next = .input place k) ∨
      ∀ place k, slot = .output place k → ∃ inner j, next = .output inner j ∧ place.length < inner.length := by
  obtain ⟨outer, terminal, rfl, inside⟩ := aliasSink drives
  obtain ⟨_, _, -, ⟨k, rfl⟩ | ⟨i, j, _, _, _, _, _, rfl, -⟩⟩ := driverInAlias inside
  · exact .inl ⟨outer, k, rfl⟩
  · refine .inr fun place k same => ⟨i :: outer, j, rfl, ?_⟩
    cases terminal with
    | port k' =>
      cases same
      exact Nat.lt_succ_self _
    | pin i' k' => cases same

theorem wayDeeper {slot last : Slot} (way : Relation.TransGen (Aliased design.driver) slot last) :
    (∃ place k, Relation.TransGen (Aliased design.driver) slot (.input place k) ∧
      Chain design.driver (.input place k) last) ∨
      ∀ place k, slot = .output place k → ∃ inner j, last = .output inner j ∧ place.length < inner.length := by
  induction way with
  | single step =>
    rcases aliasDeeper step with ⟨place, k, rfl⟩ | deeper
    · exact .inl ⟨place, k, .single step, .refl⟩
    · exact .inr deeper
  | tail way step ih =>
    rcases ih with ⟨place, k, into, out⟩ | deeper
    · exact .inl ⟨place, k, into, out.tail step⟩
    · rcases aliasDeeper step with ⟨place, k, rfl⟩ | further
      · exact .inl ⟨place, k, way.tail step, .refl⟩
      · refine .inr fun place k same => ?_
        obtain ⟨inner, j, between, less⟩ := deeper place k same
        obtain ⟨inmost, j', last, less'⟩ := further inner j between
        exact ⟨inmost, j', last, Nat.lt_trans less less'⟩

theorem loopInput {slot : Slot} (loop : Relation.TransGen (Aliased design.driver) slot slot) :
    ∃ place k, Relation.TransGen (Aliased design.driver) slot (.input place k) ∧
      Chain design.driver (.input place k) slot := by
  rcases wayDeeper loop with through | deeper
  · exact through
  · cases slot with
    | input place k => exact ⟨place, k, loop, .refl⟩
    | output place k =>
      obtain ⟨inner, j, same, less⟩ := deeper place k rfl
      cases same
      exact absurd less (Nat.lt_irrefl _)

theorem scopeEntry {i : Nat} {place : Place} {wires : List Wire} {body : Hierarchy}
    (found : design.scope? (i :: place) = some (wires, body)) :
    ∃ name definition interface inside inner,
      design.item? (i :: place) = some (.scope name definition interface inside inner) := by
  rcases presentScope found with none | ⟨entry, item⟩
  · cases none
  · cases entry with
    | primitive name primitive =>
      rw [scopeNone item] at found
      cases found
    | scope name definition interface inside inner => exact ⟨name, definition, interface, inside, inner, item⟩

namespace Of

variable {circuit : Circuit} {library : Library} {root : Nat} (of : design.Of circuit library root)
include of

theorem loopThrough {slot : Slot} (loop : Relation.TransGen (Aliased design.driver) slot slot) :
    ∃ input, design.ScopeInput input ∧ Relation.TransGen (Aliased design.driver) slot input ∧
      Chain design.driver input slot := by
  obtain ⟨place, k, into, back⟩ := loopInput loop
  refine ⟨.input place k, ?_, into, back⟩
  obtain ⟨before, -, last⟩ := Relation.TransGen.tail'_iff.mp into
  obtain ⟨next, first, -⟩ := Relation.TransGen.head'_iff.mp (Relation.TransGen.trans_right back into)
  obtain ⟨outer, terminal, rfl, drives⟩ := aliasSink last
  obtain ⟨wires, body, found, ⟨j, same⟩ | ⟨_, _, _, _, _, _, _, same, -⟩⟩ := driverInAlias drives
  · cases same
    obtain ⟨_, _, _, known, -⟩ := of.driverInJoined (by rw [drives]; exact nofun)
    rw [drives] at known
    obtain ⟨port, here, -⟩ := Option.map_eq_some_iff.mp known
    obtain ⟨bound, -⟩ := List.getElem?_eq_some_iff.mp here
    cases place with
    | nil => exact nomatch first
    | cons i place =>
      obtain ⟨name, definition, interface, inside, inner, item⟩ := scopeEntry found
      rw [interfaceIn item] at bound
      exact ⟨_, k, name, definition, interface, inside, inner, rfl, item, bound⟩
  · cases same

theorem flatLoopless {graph : Graph} (flat : design.Flat graph) (slot : Slot) :
    ¬Relation.TransGen (Aliased design.driver) slot slot := by
  intro loop
  obtain ⟨_, ⟨place, k, name, definition, interface, wires, inner, rfl, item, bound⟩, into, back⟩ := of.loopThrough loop
  obtain ⟨origin, _, -, made, -⟩ := flat.inputMakes of item (List.getElem?_eq_getElem bound)
  have leads := makesLeads made fun _ _ _ _ same => nomatch same
  exact leads.noLoop (Relation.TransGen.trans_right back into)

variable (named : circuit.Named)
include named

theorem joinedAlias {before source sink : List String × String} (joined : circuit.Joined root before source)
    (joined' : circuit.Joined root source sink) : ∃ slot slot' width width', design.slot? slot = some (source, width) ∧
      design.slot? slot' = some (sink, width') ∧ design.driver slot' = .alias slot := by
  obtain ⟨place, terminal, scope, width, found, known, -⟩ := of.joinedSink joined
  obtain ⟨place', terminal', _, width', -, known', drives⟩ := of.joinedSink joined'
  refine ⟨_, _, width, width', known, known', ?_⟩
  rw [sinkDriver]
  cases driver : design.driverIn place' terminal' with
  | undriven =>
    rw [driver] at drives
    cases drives
  | «alias» next =>
    rw [driver] at drives
    rw [of.slotInj named known drives]
  | origin origin =>
    -- no wire ends at a pin where a signal is made
    rw [driver] at drives
    cases origin with
    | input j =>
      have own : design.slot? (.input [] j) = some (source, width') := drives
      have same := of.slotInj named known own
      cases terminal with
      | port k | pin i k => cases same
    | primitive inner =>
      have origin := drives
      simp only [driver?, origin?] at origin
      split at origin
      · rename_i name primitive item
        have own : design.slot? (.output inner 0) = some (source, width') := (outputOrigin item).trans drives
        have same := of.slotInj named known own
        cases terminal with
        | port k =>
          cases same
          cases found.symm.trans (scopeNone item)
        | pin i k => cases same
      · cases origin

theorem joinedWay {before source sink : List String × String} (joined : circuit.Joined root before source)
    (way : Relation.TransGen (circuit.Joined root) source sink) : ∃ slot slot' width width',
      design.slot? slot = some (source, width) ∧ design.slot? slot' = some (sink, width') ∧
        Relation.TransGen (Aliased design.driver) slot' slot := by
  induction way using Relation.TransGen.head_induction_on generalizing before with
  | single step =>
    obtain ⟨slot, slot', width, width', known, known', drives⟩ := of.joinedAlias named joined step
    exact ⟨slot, slot', width, width', known, known', .single drives⟩
  | head step _ ih =>
    obtain ⟨slot, between, width, _, known, middle, drives⟩ := of.joinedAlias named joined step
    obtain ⟨between', slot', _, width', middle', known', way⟩ := ih step
    obtain rfl := of.slotInj named middle middle'
    exact ⟨slot, slot', width, width', known, known', way.tail drives⟩

theorem joinedLoop {pin : List String × String} (loop : Relation.TransGen (circuit.Joined root) pin pin) :
    ∃ slot, Relation.TransGen (Aliased design.driver) slot slot := by
  obtain ⟨before, -, joined⟩ := Relation.TransGen.tail'_iff.mp loop
  obtain ⟨slot, slot', _, _, known, known', way⟩ := of.joinedWay named joined loop
  obtain rfl := of.slotInj named known known'
  exact ⟨slot, way⟩

end Of

end Design

theorem Circuit.flattenDesign {circuit : Circuit} {library : Library} {root : Nat} {design : Design} {graph : Graph}
    (made : Design.ofCircuit circuit library root = .ok design) (ok : circuit.flatten library root = .ok graph) :
    design.Flat graph := by
  obtain ⟨_, -, ok⟩ := Result.okBind ok
  obtain ⟨design', made', flat⟩ := Result.okBind ok
  cases made.symm.trans made'
  exact Design.flattenFlat flat

/-- A walk along aliases ends within one visit more than there are slots, at the end of the chain if it has one and at
a loop otherwise; a design has no aliases that lead elsewhere, and a graph is made of it only if nothing in it is wired
in a circle. -/
theorem loopsFound {circuit : Circuit} {library : Library} {root : Nat} {design : Design}
    (made : Design.ofCircuit circuit library root = .ok design) :
    (∀ {σ : Type} [DecidableEq σ] (driver : σ → Driver σ) (all : List σ),
      (∀ slot ∈ all, ∀ next, driver slot = .alias next → next ∈ all) → ∀ slot ∈ all, ∃ visits ending,
        visits ≤ all.length + 1 ∧ Walks driver [] slot visits ending ∧
          (∀ steps, visits ≤ steps → follow driver steps [] slot = ending) ∧ Settled driver slot ending) ∧
    design.allSlots.length = design.slots ∧
    (∀ slot next, design.driver slot = .alias next → slot ∈ design.allSlots ∧ next ∈ design.allSlots) ∧
    (∀ slot ∈ design.allSlots,
      (∀ origin, design.origin slot = .ok origin ↔
        ∃ last, Chain design.driver slot last ∧ design.driver last = .origin origin) ∧
      (∀ name, design.origin slot = .error (.undriven name) ↔
        ∃ last, Chain design.driver slot last ∧ design.driver last = .undriven ∧ design.slotName last = name) ∧
      ((∃ names, design.origin slot = .error (.combinationalCycle names)) ↔
        ∀ last, Chain design.driver slot last → ∃ next, design.driver last = .alias next)) ∧
    (∀ slot, Relation.TransGen (Aliased design.driver) slot slot →
      (∃ input, design.ScopeInput input ∧ Relation.TransGen (Aliased design.driver) slot input ∧
        Chain design.driver input slot) ∧
      ∀ graph, circuit.flatten library root ≠ .ok graph) ∧
    (circuit.Named → ∀ pin, Relation.TransGen (circuit.Joined root) pin pin →
      ∀ graph, circuit.flatten library root ≠ .ok graph) := by
  have of := Design.ofCircuitOf made
  refine ⟨fun driver all closed slot mem => walkSettles closed mem, Design.allSlotsLength,
    fun slot next drives => of.aliasListed drives, fun slot mem => ?_, fun slot loop => ⟨of.loopThrough loop, ?_⟩, ?_⟩
  · have closed : ∀ slot ∈ design.allSlots, ∀ next, design.driver slot = .alias next → next ∈ design.allSlots :=
      fun _ _ _ drives => (of.aliasListed drives).2
    obtain ⟨visits, ending, bound, -, follows, settled⟩ := walkSettles closed mem
    rw [Design.allSlotsLength] at bound
    exact Design.originSettled (follows _ (by omega)) settled
  · intro graph ok
    exact of.flatLoopless (Circuit.flattenDesign made ok) slot loop
  · intro named pin loop graph ok
    obtain ⟨slot, way⟩ := of.joinedLoop named loop
    exact of.flatLoopless (Circuit.flattenDesign made ok) slot way

def lassoed : Nat → Driver Nat
  | 0 => .alias 1
  | 1 => .alias 2
  | 2 => .alias 1
  | _ => .undriven

def circled : Circuit := ⟨[
  { name := "pass"
    inputs := [⟨"x", 1⟩]
    outputs := [⟨"y", 1⟩]
    nets := [⟨.own "x", [.own "y"]⟩] },
  { name := "t"
    instances := [⟨"p", .definition "pass"⟩]
    nets := [⟨.of "p" "y", [.of "p" "x"]⟩] }], none⟩

def circledDesign : Design :=
  ⟨"t", 1, ⟨[], []⟩, [⟨.pin 0 0, .pin 0 0⟩],
    .scope "p" 0 ⟨[⟨"x", 1⟩], [⟨"y", 1⟩]⟩ [⟨.port 0, .port 0⟩] .empty .empty⟩

theorem circledRefused : Design.ofCircuit circled .builtin 1 = .ok circledDesign ∧ circled.validate = .ok () ∧
    (∃ passed, follow lassoed 4 [] 0 = .loop passed ∧ ∀ other, other ∈ passed ↔ Chain lassoed 0 other) ∧
    (∃ input, circledDesign.ScopeInput input ∧ Chain circledDesign.driver input (.output [0] 0)) ∧
    (∃ names, circledDesign.origin (.output [0] 0) = .error (.combinationalCycle names)) ∧
    ∀ graph, circled.flatten .builtin 1 ≠ .ok graph := by
  have made : Design.ofCircuit circled .builtin 1 = .ok circledDesign := by decide +kernel
  have closed : ∀ slot ∈ [0, 1, 2], ∀ next, lassoed slot = .alias next → next ∈ [0, 1, 2] := by
    intro slot _ next drives
    unfold lassoed at drives
    split at drives
    · cases drives
      decide
    · cases drives
      decide
    · cases drives
      decide
    · cases drives
  have inward : Aliased circledDesign.driver (.output [0] 0) (.input [0] 0) := by decide +kernel
  have outward : Aliased circledDesign.driver (.input [0] 0) (.output [0] 0) := by decide +kernel
  obtain ⟨walks, -, -, origins, loops, -⟩ := loopsFound made
  obtain ⟨visits, ending, bound, -, follows, settled⟩ := walks lassoed [0, 1, 2] closed 0 (by decide)
  have lasso : follow lassoed 4 [] 0 = .loop [0, 1, 2] := by decide +kernel
  obtain ⟨-, whole⟩ := settled.passed [0, 1, 2] ((follows 4 bound).symm.trans lasso)
  obtain ⟨⟨input, port, -, back⟩, refused⟩ := loops (.output [0] 0) (.tail (.single inward) outward)
  obtain ⟨-, -, cyclic⟩ := origins (.output [0] 0) (by decide +kernel)
  refine ⟨made, by decide +kernel, ⟨_, lasso, whole⟩, ⟨input, port, back⟩, cyclic.mpr fun last chain => ?_, refused⟩
  -- the chain only has the two slots of the loop
  have known : last = .output [0] 0 ∨ last = .input [0] 0 := by
    induction chain with
    | refl => exact .inl rfl
    | tail _ step ih =>
      rcases ih with rfl | rfl
      · exact .inr (Driver.alias.inj (step.symm.trans inward))
      · exact .inl (Driver.alias.inj (step.symm.trans outward))
  rcases known with rfl | rfl
  · exact ⟨_, inward⟩
  · exact ⟨_, outward⟩

end CircuitSim
