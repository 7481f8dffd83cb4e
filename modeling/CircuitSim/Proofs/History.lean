import CircuitSim.Proofs.Snapshot

/-! What a simulator has in its records does not tell what was computed or looked at before. Requests that neither
stage an input nor advance the state can be left out: the inputs, the state and what a compute puts into the record of
the outputs stay the same, bit by bit. Main statement: `historyUnseen`. -/
namespace CircuitSim

namespace Layout

variable {layout : Layout}

theorem packPut {member : Member} {members : List Member}
    (before : ∀ other ∈ members, member.offset + layout.rules.room member.width ≤ other.offset) (number : Nat → Nat)
    (start : Nat) (data : Bytes) (value : Nat) :
    layout.pack number start members (data.put member.offset (layout.rules.room member.width) value) =
      (layout.pack number start members data).put member.offset (layout.rules.room member.width) value := by
  induction members generalizing start data with
  | nil => rfl
  | cons other rest ih =>
    have apart := before other List.mem_cons_self
    rw [pack, pack, Bytes.putComm (.inl apart)]
    exact ih (fun other mem => before other (List.mem_cons_of_mem _ mem)) (start + 1) _

theorem packAgain {members : List Member}
    (ordered : members.Pairwise fun a b => a.offset + layout.rules.room a.width ≤ b.offset)
    (number number' : Nat → Nat) (start start' : Nat) (data : Bytes) :
    layout.pack number start members (layout.pack number' start' members data) =
      layout.pack number start members data := by
  induction ordered generalizing start start' data with
  | nil => rfl
  | @cons member rest before _ ih =>
    rw [pack, pack, ← packPut before, Bytes.putAgain, ih]
    rfl

end Layout

namespace Simulator

def heeds (sim : Simulator) : Request → Bool
  | .call .compute | .get _ _ => false
  | .call call => (sim.attempt call).isOk

/- The requests that can matter, of those that are asked one after the other. -/
def heeded (sim : Simulator) : List Request → List Request
  | [] => []
  | request :: rest =>
    if sim.heeds request then request :: (sim.ask request).2.heeded rest else (sim.ask request).2.heeded rest

structure Agrees (sim sim' : Simulator) : Prop where
  inputs : sim.inputs = sim'.inputs
  layout : sim.outputs.layout = sim'.outputs.layout
  size : sim.outputs.data.size = sim'.outputs.data.size
  state : sim.state = sim'.state
  stateBytes : sim.stateBytes = sim'.stateBytes
  engine : sim.engine = sim'.engine
  symbols : sim.symbols = sim'.symbols

namespace Agrees

variable {sim sim' sim'' : Simulator}

theorem refl (sim : Simulator) : sim.Agrees sim := ⟨rfl, rfl, rfl, rfl, rfl, rfl, rfl⟩

theorem symm (agrees : sim.Agrees sim') : sim'.Agrees sim :=
  ⟨agrees.inputs.symm, agrees.layout.symm, agrees.size.symm, agrees.state.symm, agrees.stateBytes.symm,
    agrees.engine.symm, agrees.symbols.symm⟩

theorem trans (agrees : sim.Agrees sim') (agrees' : sim'.Agrees sim'') : sim.Agrees sim'' :=
  ⟨agrees.inputs.trans agrees'.inputs, agrees.layout.trans agrees'.layout, agrees.size.trans agrees'.size,
    agrees.state.trans agrees'.state, agrees.stateBytes.trans agrees'.stateBytes, agrees.engine.trans agrees'.engine,
    agrees.symbols.trans agrees'.symbols⟩

end Agrees

def stagedBy (sim : Simulator) : Call → Except Fault Record
  | .set name value =>
    sim.checkInput name (Width.bitLength value) >>= fun index => sim.inputs.set (.position index) value
  | .setWord name value =>
    sim.checkInput name (Width.bitLength value.toNat) >>= fun index => sim.inputs.setWord (.position index) value.toNat
  | .compute | .update => .ok sim.inputs

theorem setStages (sim : Simulator) (call : Call) (sets : call ≠ .compute ∧ call ≠ .update) :
    sim.heeds (.call call) = (sim.stagedBy call).isOk ∧
      sim.call call = match sim.stagedBy call with
        | .ok inputs => { sim with inputs := inputs }
        | .error _ => sim := by
  cases call with
  | compute => exact absurd rfl sets.1
  | update => exact absurd rfl sets.2
  | set name value =>
    simp only [heeds, Simulator.call, attempt, stagedBy, setInput]
    cases sim.checkInput name (Width.bitLength value) with
    | error fault => exact ⟨rfl, rfl⟩
    | ok index =>
      simp only [bind, Except.bind]
      cases sim.inputs.set (.position index) value with
      | error | ok => exact ⟨rfl, rfl⟩
  | setWord name value =>
    simp only [heeds, Simulator.call, attempt, stagedBy, setInputWord]
    cases sim.checkInput name (Width.bitLength value.toNat) with
    | error fault => exact ⟨rfl, rfl⟩
    | ok index =>
      simp only [bind, Except.bind]
      cases sim.inputs.setWord (.position index) value.toNat with
      | error | ok => exact ⟨rfl, rfl⟩

theorem setOutputs (sim : Simulator) (call : Call) (sets : call ≠ .compute ∧ call ≠ .update) :
    (sim.call call).outputs = sim.outputs := by
  rw [(sim.setStages call sets).2]
  cases sim.stagedBy call with
  | error | ok => rfl

section Alike

variable {sim sim' : Simulator} (agrees : sim.Agrees sim')
include agrees

theorem stagedAgrees (call : Call) : sim.stagedBy call = sim'.stagedBy call := by
  have checks : ∀ name bits, sim.checkInput name bits = sim'.checkInput name bits := by
    intro name bits
    rw [checkInput, checkInput, agrees.inputs]
  cases call with
  | compute | update => exact congrArg Except.ok agrees.inputs
  | set | setWord => simp only [stagedBy, checks, agrees.inputs]

theorem updateAgrees : sim.heeds (.call .update) = sim'.heeds (.call .update) ∧
    (sim.call .update).Agrees (sim'.call .update) := by
  have checks : sim.checkBuffers = sim'.checkBuffers := by
    simp only [checkBuffers, checkBuffer, agrees.inputs, agrees.layout, agrees.size, agrees.state, agrees.stateBytes]
  have invokes : sim.invoke sim.symbols.update [sim.inputs.data, sim.state] =
      sim'.invoke sim'.symbols.update [sim'.inputs.data, sim'.state] := by
    simp only [invoke, agrees.engine, agrees.symbols, agrees.inputs, agrees.state]
  simp only [heeds, Simulator.call, attempt, update, checks, invokes]
  cases sim'.checkBuffers with
  | error fault => exact ⟨rfl, agrees⟩
  | ok =>
    cases sim'.invoke sim'.symbols.update [sim'.inputs.data, sim'.state] with
    | error fault => exact ⟨rfl, agrees⟩
    | ok memory => exact ⟨rfl, { agrees with state := rfl }⟩

theorem setAgrees (call : Call) (sets : call ≠ .compute ∧ call ≠ .update) :
    sim.heeds (.call call) = sim'.heeds (.call call) ∧ (sim.call call).Agrees (sim'.call call) := by
  obtain ⟨heeds, result⟩ := sim.setStages call sets
  obtain ⟨heeds', result'⟩ := sim'.setStages call sets
  have same := stagedAgrees agrees call
  rw [heeds, heeds', result, result', same]
  refine ⟨rfl, ?_⟩
  cases sim'.stagedBy call with
  | error fault => exact agrees
  | ok inputs => exact { agrees with inputs := rfl }

theorem heedsAgrees (request : Request) : sim.heeds request = sim'.heeds request ∧
    (sim.heeds request = true → (sim.ask request).2.Agrees (sim'.ask request).2) := by
  cases request with
  | get path pin => exact ⟨rfl, nofun⟩
  | call call =>
    cases call with
    | compute => exact ⟨rfl, nofun⟩
    | update =>
      obtain ⟨same, after⟩ := updateAgrees agrees
      exact ⟨same, fun _ => after⟩
    | set name value =>
      obtain ⟨same, after⟩ := setAgrees agrees (.set name value) ⟨nofun, nofun⟩
      exact ⟨same, fun _ => after⟩
    | setWord name value =>
      obtain ⟨same, after⟩ := setAgrees agrees (.setWord name value) ⟨nofun, nofun⟩
      exact ⟨same, fun _ => after⟩

end Alike

def outputNow (sim : Simulator) (graph : Graph) : Nat → Nat :=
  graph.outputNumber (fun k => sim.inputs.numbers.getD k 0)
    (graph.evaluate (fun k => sim.inputs.numbers.getD k 0) (Node.words sim.state))

section Unheeded

variable {sim : Simulator} {graph : Graph} {snapshot : Snapshot} (stands : sim.Stands graph snapshot)
  (wellFormed : graph.WellFormed)
include stands wellFormed

theorem computePacks : sim.compute = .ok { sim with
    outputs := ⟨sim.outputs.layout,
      sim.outputs.layout.pack (sim.outputNow graph) 0 sim.outputs.layout.members sim.outputs.data⟩ } :=
  stands.serves.computed stands.inputs stands.outputs stands.room wellFormed (Graph.evaluateSettled wellFormed _ _)

theorem computeFits : (sim.outputs.layout.pack (sim.outputNow graph) 0 sim.outputs.layout.members
    sim.outputs.data).size = sim.outputs.data.size := by
  obtain ⟨after, ran, size, -⟩ := stands.serves.shows stands.inputs stands.outputs stands.room wellFormed
    (Graph.evaluateSettled wellFormed _ _)
  cases ran.symm.trans (computePacks stands wellFormed)
  exact size.trans stands.outputs.symm

theorem lookAgrees (shown : graph.TapsFit) (path : List String) (pin : String) :
    (sim.ask (.get path pin)).2.Agrees sim ∧ (sim.ask (.get path pin)).2.outputs = sim.outputs := by
  have refused : ∀ fault, (graph.look snapshot path pin).1 = .error fault →
      (sim.ask (.get path pin)).2.Agrees sim ∧ (sim.ask (.get path pin)).2.outputs = sim.outputs := by
    intro fault answer
    have kept := askRefused ((lookStands stands wellFormed shown path pin).1.trans answer)
    rw [kept]
    exact ⟨.refl sim, rfl⟩
  cases held : snapshot.captured with
  | none => exact refused .tapsDisabled (by rw [Graph.look, held])
  | some captured =>
    cases found : graph.tap? path pin with
    | none => exact refused (.unknownTap (".".intercalate path) pin) (by rw [Graph.look, held, found])
    | some k =>
      obtain ⟨inside, -⟩ := List.findIdx?_eq_some_iff_getElem.mp found
      obtain ⟨data, read, -⟩ := lookShows stands wellFormed shown held found (List.getElem?_eq_getElem inside)
      simp only [ask, read]
      exact ⟨⟨rfl, rfl, rfl, rfl, rfl, rfl, rfl⟩, rfl⟩

theorem unheededAgrees (shown : graph.TapsFit) {request : Request} (ignored : sim.heeds request = false) :
    (sim.ask request).2.Agrees sim := by
  have refused : ∀ call, call ≠ .compute ∧ call ≠ .update → sim.heeds (.call call) = false →
      (sim.call call).Agrees sim := by
    intro call sets ignored
    obtain ⟨heeds, result⟩ := sim.setStages call sets
    rw [result]
    cases staged : sim.stagedBy call with
    | error fault => exact .refl sim
    | ok inputs =>
      rw [heeds, staged] at ignored
      cases ignored
  cases request with
  | get path pin => exact (lookAgrees stands wellFormed shown path pin).1
  | call call =>
    cases call with
    | compute =>
      simp only [ask, Simulator.call, attempt, computePacks stands wellFormed]
      exact { Agrees.refl sim with size := computeFits stands wellFormed }
    | update =>
      simp only [heeds, attempt, stands.serves.updated stands.inputs stands.outputs stands.room wellFormed
        (standsSettled stands wellFormed)] at ignored
      cases ignored
    | set name value => exact refused (.set name value) ⟨by simp, by simp⟩ ignored
    | setWord name value => exact refused (.setWord name value) ⟨by simp, by simp⟩ ignored

end Unheeded

def Clean (sim : Simulator) : Prop :=
  ∀ number, sim.outputs.layout.pack number 0 sim.outputs.layout.members sim.outputs.data =
    sim.outputs.layout.pack number 0 sim.outputs.layout.members (Bytes.zeros sim.outputs.layout.size)

section Run

variable {sim : Simulator} {graph : Graph} {snapshot : Snapshot} (stands : sim.Stands graph snapshot)
  (wellFormed : graph.WellFormed)
include stands wellFormed

theorem askClean (shown : graph.TapsFit) (clean : sim.Clean) (request : Request) : (sim.ask request).2.Clean := by
  have kept : ∀ {after : Simulator}, after.outputs = sim.outputs → after.Clean := by
    intro after same number
    rw [same]
    exact clean number
  cases request with
  | get path pin => exact kept (lookAgrees stands wellFormed shown path pin).2
  | call call =>
    cases call with
    | compute =>
      intro number
      simp only [ask, Simulator.call, attempt, computePacks stands wellFormed]
      exact (Layout.packAgain stands.serves.outputs.placed.ordered _ _ _ _ _).trans (clean number)
    | update =>
      refine kept ?_
      rw [ask, Simulator.call, attempt, stands.serves.updated stands.inputs stands.outputs stands.room wellFormed
        (standsSettled stands wellFormed)]
    | set name value => exact kept (sim.setOutputs (.set name value) ⟨by simp, by simp⟩)
    | setWord name value => exact kept (sim.setOutputs (.setWord name value) ⟨by simp, by simp⟩)

theorem runClean (shown : graph.TapsFit) (clean : sim.Clean) (requests : List Request) :
    (sim.asked requests).Clean := by
  induction requests generalizing sim snapshot with
  | nil => exact clean
  | cons request rest ih =>
    exact ih (askStands stands wellFormed shown request).2 (askClean stands wellFormed shown clean request)

theorem runAgrees (shown : graph.TapsFit) {base : Simulator} (agrees : sim.Agrees base) (requests : List Request) :
    (sim.asked requests).Agrees (base.asked (sim.heeded requests)) := by
  induction requests generalizing sim snapshot base with
  | nil => exact agrees
  | cons request rest ih =>
    have next := (askStands stands wellFormed shown request).2
    obtain ⟨-, both⟩ := heedsAgrees agrees request
    rw [heeded]
    cases heeds : sim.heeds request with
    | true => exact ih next (both heeds)
    | false => exact ih next ((unheededAgrees stands wellFormed shown heeds).trans agrees)

theorem computeAgrees {sim' : Simulator} {snapshot' : Snapshot} (stands' : sim'.Stands graph snapshot')
    (agrees : sim.Agrees sim') (clean : sim.Clean) (clean' : sim'.Clean) :
    ∃ after after', sim.compute = .ok after ∧ sim'.compute = .ok after' ∧ after.outputs = after'.outputs ∧
      after.state = sim.state := by
  have number : sim.outputNow graph = sim'.outputNow graph := by
    rw [outputNow, outputNow, agrees.inputs, agrees.state]
  have packed := (clean (sim'.outputNow graph)).symm
  rw [agrees.layout, ← clean' (sim'.outputNow graph)] at packed
  refine ⟨_, _, computePacks stands wellFormed, computePacks stands' wellFormed, ?_, rfl⟩
  rw [number, agrees.layout, packed]

theorem computeTwice : ∃ after, sim.compute = .ok after ∧ after.compute = .ok after := by
  have packs := computePacks stands wellFormed
  have again := computePacks (computeStands stands wellFormed).2 wellFormed
  simp only [ask, Simulator.call, attempt, packs] at again
  refine ⟨_, packs, again.trans ?_⟩
  exact congrArg (fun data => Except.ok { sim with outputs := ⟨sim.outputs.layout, data⟩ })
    (Layout.packAgain stands.serves.outputs.placed.ordered _ _ _ _ _)

end Run

/-- Computes, looks at taps and refused inputs leave no trace. Two runs that differ in them only have the same state
and the same inputs, and a compute after them succeeds and gives the same outputs, with all bits that no output has. A
compute changes neither the state nor, when nothing was changed since the last one, anything else. The library may be
any that keeps to what compiled code can handle, and the records any that it can address. -/
theorem historyUnseen (platform : Platform) (circuit : Circuit) (library : Library) (sound : library.Sound)
    (settings : Settings) (top : Nat) (sim : Simulator) (built : ofCircuit platform circuit library settings top = .ok sim)
    (small : sim.Small) (requests requests' : List Request) (same : sim.heeded requests = sim.heeded requests') :
    let now := sim.asked requests
    let now' := sim.asked requests'
    now.state = now'.state ∧ now.inputs = now'.inputs ∧
      ∃ after after', now.compute = .ok after ∧ now'.compute = .ok after' ∧ after.outputs = after'.outputs ∧
        after.state = now.state ∧ after.compute = .ok after := by
  intro now now'
  obtain ⟨graph, fresh⟩ := ofCircuitFresh built small.inputs small.outputs
  obtain ⟨design, of, flat⟩ := Circuit.flattenOf fresh.flat
  have wellFormed := flat.soundWellFormed sound of
  have shown := flat.tapsFit of
  have start := freshStands fresh (fun _ => tapsCount wellFormed shown) small
  have clean : sim.Clean := fun number => by rw [fresh.outputs]
  have run (requests : List Request) : ∃ snapshot, (sim.asked requests).Stands graph snapshot ∧
      (sim.asked requests).Clean ∧ (sim.asked requests).Agrees (sim.asked (sim.heeded requests)) :=
    ⟨_, (runStands start wellFormed shown requests).2, runClean start wellFormed shown clean requests,
      runAgrees start wellFormed shown (.refl sim) requests⟩
  obtain ⟨snapshot, stands, clean, agrees⟩ := run requests
  obtain ⟨snapshot', stands', clean', agrees'⟩ := run requests'
  rw [← same] at agrees'
  have both := agrees.trans agrees'.symm
  obtain ⟨after, after', computed, computed', outputs, state⟩ :=
    computeAgrees stands wellFormed stands' both clean clean'
  obtain ⟨again, computed'', twice⟩ := computeTwice stands wellFormed
  obtain rfl := Except.ok.inj (computed.symm.trans computed'')
  exact ⟨both.state, both.inputs, after, after', computed, computed', outputs, state, twice⟩

theorem countersForget : ∃ sim, ofCircuit default counters .builtin { taps := true, layout := .bitPacked } 1 = .ok sim ∧
    ∃ after after', (sim.asked [.call .compute, .call (.set "step" 3), .get ["second", "add"] "lhs", .call .update,
      .call .compute, .call (.set "step" 16)]).compute = .ok after ∧
    (sim.asked [.call (.set "step" 3), .call .update]).compute = .ok after' ∧ after.outputs = after'.outputs := by
  let requests : List Request := [.call .compute, .call (.set "step" 3), .get ["second", "add"] "lhs", .call .update,
    .call .compute, .call (.set "step" 16)]
  let requests' : List Request := [.call (.set "step" 3), .call .update]
  have evaluated : (ofCircuit default counters .builtin { taps := true, layout := .bitPacked } 1).toOption.any
      (fun sim => decide (sim.Small ∧ sim.heeded requests = sim.heeded requests')) = true := by
    decide +kernel
  obtain ⟨sim, built, checked⟩ := Result.okAny evaluated
  obtain ⟨small, same⟩ := of_decide_eq_true checked
  obtain ⟨-, -, after, after', computed, computed', outputs, -⟩ := historyUnseen default counters .builtin
    Library.builtinSound _ 1 sim built small requests requests' same
  exact ⟨sim, built, after, after', computed, computed', outputs⟩

end Simulator

end CircuitSim
