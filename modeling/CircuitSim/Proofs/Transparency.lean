import CircuitSim.Proofs.Snapshot

/-! Taps add a record and two functions to a build. The functions have names that no other function can have, and
nothing else calls them, so taps show in nothing but in whether a record can hold them. Main statement:
`tapsUnseen`. -/
namespace CircuitSim

theorem Graph.recordableIff {graph : Graph} (wellFormed : graph.WellFormed) (shown : graph.TapsFit) :
    graph.Recordable ↔ (graph.taps.map fun tap => tapName tap.path tap.pin).Nodup := by
  refine ⟨fun recordable => recordable.distinct, fun distinct => ⟨distinct, fun tap mem => ?_⟩⟩
  exact (Graph.widthFits wellFormed (shown tap mem)).1.ne'

def Build.ForTaps (name : String) : Prop := name.toList.getLast? = some 's'

namespace Build
open CircuitSim.Module

variable {m m' : Module}

theorem endsLike (name : String) {tail : String} {last : Char} (ends : tail.toList.getLast? = some last) :
    (name ++ tail).toList.getLast? = some last := by
  rw [String.toList_append, List.getLast?_append, ends, Option.some_or]

theorem notForTaps (name : String) {tail : String} {last : Char} (ends : tail.toList.getLast? = some last)
    (other : last ≠ 's') : ¬ForTaps (name ++ tail) := by
  rw [ForTaps, endsLike name ends]
  exact fun same => other (Option.some.inj same)

theorem graphUntapped {graph : Graph} {functions : GraphFunctions} (ran : (Build.graph graph).Runs m functions m')
    (named : m.Names (¬ForTaps ·)) : m'.Names (¬ForTaps ·) :=
  graphNames ran (notForTaps graph.name rfl (by decide)) (notForTaps graph.name rfl (by decide)) named

variable {backend : Backend}

theorem captureAdds (named : m.Names (¬ForTaps ·)) (alike : m.Alike backend ForTaps m') {graph : Graph} {layout : Layout}
    (takes : backend.Takes graph.captureParams (graph.captureBody layout)) :
    ∃ id n, (capture graph layout).Runs m id n ∧ n.Alike backend ForTaps m' ∧
      n.Names fun name => ForTaps name → name = graph.captureSymbol := by
  have own : ForTaps graph.captureSymbol := endsLike graph.name rfl
  obtain ⟨between, n, declared, defined, imports, ready, shapes⟩ :=
    introduceFresh (namesMissing named (not_not.mpr own)) takes alike.left
  refine ⟨_, n, (runAfter declared).trans ((runAfter defined).trans rfl), alike.hide own shapes imports ready, ?_⟩
  exact introduceNames declared defined (fun _ => rfl) fun name mem tapped => absurd tapped (named name mem)

theorem getterAdds {name : String} (named : m.Names fun other => ForTaps other → other = name ++ "_capture_values")
    (alike : m.Alike backend ForTaps m') {inputs outputs : Layout} (wrappable : Wrappable backend inputs outputs)
    (id : Nat) : ∃ n, (getter name inputs (some id)).Runs m (some (name ++ "_wrap_get_values")) n ∧
      n.Alike backend ForTaps m' := by
  have own : ForTaps (name ++ "_wrap_get_values") := endsLike name rfl
  have apart : name ++ "_wrap_get_values" ≠ name ++ "_capture_values" := by
    intro same
    have lengths := congrArg String.length same
    rw [String.length_append, String.length_append, Nat.add_left_cancel_iff] at lengths
    exact absurd lengths (by decide)
  obtain ⟨between, n, declared, defined, imports, ready, shapes⟩ :=
    introduceFresh (namesMissing named fun known => apart (known own)) (wrappable.capture id) alike.left
  have wrapped : (wrapper (name ++ "_wrap_get_values") 3 (Wrapper.captureBody inputs id)).Runs m () n :=
    (runAfter declared).trans defined
  exact ⟨n, (runAfter wrapped).trans rfl, alike.hide own shapes imports ready⟩

end Build

namespace Simulator
open Build

variable {circuit : Circuit} {library : Library} {settings : Settings} {top : Nat} {backend : Backend}

theorem othersUntapped {ids : List Nat} {m m' : Module} {r : Unit} (ran : (buildOthers circuit library ids).Runs m r m')
    (named : m.Names (¬ForTaps ·)) : m'.Names (¬ForTaps ·) :=
  othersRuns (fun m m' => m.Names (¬ForTaps ·) → m'.Names (¬ForTaps ·)) (fun _ => id)
    (fun first second named => second (first named)) graphUntapped ran named

section Tapping

variable (handles : backend.Handles library) {graph : Graph} (flat : circuit.flatten library top = .ok graph)
  (taken : backend.Takes graph.computeParams graph.computeBody) (recordable : graph.Recordable)
include handles flat taken recordable

theorem buildTapsAdds {m m' : Module} (named : m.Names (¬ForTaps ·)) (alike : m.Alike backend ForTaps m') :
    Agree (fun made made' n n' => (∃ id, made.2 = some id) ∧ made'.2 = none ∧ n.Alike backend ForTaps n' ∧
        n.Names fun name => ForTaps name → name = graph.captureSymbol)
      (buildTaps { settings with taps := true } graph) (buildTaps { settings with taps := false } graph) m m' := by
  obtain ⟨taps, made⟩ := (@Taps.ofGraphIff settings.layout graph).mpr recordable
  obtain ⟨id, n, captured, alike', named'⟩ := captureAdds named alike (handles.takesCapture flat made taken)
  have laidOut : (Build.lift (Taps.ofGraph settings.layout graph)).Runs m taps m := Prod.ext made rfl
  have ran : (buildTaps { settings with taps := true } graph).Runs m (some taps, some id) n :=
    (runAfter laidOut).trans ((runAfter captured).trans rfl)
  exact .done ran rfl ⟨⟨id, rfl⟩, rfl, alike', named'⟩

theorem finishTapped {functions : GraphFunctions} {m : Module} (named : m.Names (¬ForTaps ·)) (ready : m.Open backend) :
    Agree (fun _ _ n n' => n.Alike backend ForTaps n') (finishPlan { settings with taps := true } graph functions)
      (finishPlan { settings with taps := false } graph functions) m m := by
  refine agreeBind (agreeSame _ m) fun inputs _ m₁ _ packed _ ⟨same, same', _⟩ => ?_
  subst same same'
  refine agreeBind (agreeSame _ m₁) fun outputs _ m₂ _ packed' _ ⟨same, same', _⟩ => ?_
  subst same same'
  obtain ⟨first, rfl⟩ := Prod.mk.inj packed
  obtain ⟨second, rfl⟩ := Prod.mk.inj packed'
  have wrappable := recordsWrappable handles flat first second
  refine agreeBind (buildTapsAdds handles flat taken recordable named (.refl ready _))
    fun made made' n n' tapped tapped' holds => ?_
  obtain ⟨taps, capture⟩ := made
  obtain ⟨taps', capture'⟩ := made'
  obtain ⟨⟨id, present⟩, absent, alike, named⟩ := holds
  obtain rfl : capture = some id := present
  obtain rfl : capture' = none := absent
  refine agreeBind (wrappersAgree alike (notForTaps graph.name rfl (by decide)) (notForTaps graph.name rfl (by decide))
    wrappable wrappable fun p p' alike keeps => ?_) fun symbols symbols' p p' wrapped wrapped' alike => agreePure alike
  have kept := keeps _ (fun tapped => absurd tapped (notForTaps graph.name rfl (by decide)))
    (fun tapped => absurd tapped (notForTaps graph.name rfl (by decide))) named
  obtain ⟨q, ran, alike'⟩ := getterAdds kept alike wrappable id
  exact .done ran rfl alike'

end Tapping

theorem planTapped (handles : backend.Handles library)
    (recordable : ∀ graph, circuit.flatten library top = .ok graph → graph.Recordable) (reachable : List Nat)
    {m : Module} (named : m.Names (¬ForTaps ·)) (ready : m.Open backend) :
    Agree (fun _ _ n n' => n.Alike backend ForTaps n')
      (plan circuit library { settings with taps := true } top reachable)
      (plan circuit library { settings with taps := false } top reachable) m m :=
  planAgreeFrom ready reachable fun graph _ _ _ _ others flat built ready taken =>
    finishTapped handles flat taken (recordable graph flat) (graphUntapped built (othersUntapped others named)) ready

structure Shared (made made' : Plan) (m m' : Module) : Prop where
  graph : made.graph = made'.graph
  inputs : made.inputs = made'.inputs
  outputs : made.outputs = made'.outputs
  compute : made.symbols.compute = made'.symbols.compute
  update : made.symbols.update = made'.symbols.update
  functions : ∃ functions, Wrapped made m functions ∧ Wrapped made' m' functions

theorem planShared {reachable : List Nat} {made made' : Plan} {m n n' : Module}
    (ran : (plan circuit library { settings with taps := true } top reachable).Runs m made n)
    (ran' : (plan circuit library { settings with taps := false } top reachable).Runs m made' n') :
    Shared made made' n n' := by
  rw [planParts] at ran ran'
  obtain ⟨_, m₁, others, ran⟩ := runsBind ran
  obtain ⟨_, _, others', ran'⟩ := runsBind ran'
  obtain ⟨-, rfl⟩ := runsSame others others'
  obtain ⟨graph, flat, ran⟩ := runsLift ran
  obtain ⟨_, flat', ran'⟩ := runsLift ran'
  obtain rfl := Except.ok.inj (flat.symm.trans flat')
  obtain ⟨functions, m₂, built, ran⟩ := runsBind ran
  obtain ⟨_, _, built', ran'⟩ := runsBind ran'
  obtain ⟨rfl, rfl⟩ := runsSame built built'
  obtain ⟨inputs, packed, ran⟩ := runsLift ran
  obtain ⟨_, packed', ran'⟩ := runsLift ran'
  obtain rfl := Except.ok.inj (packed.symm.trans packed')
  obtain ⟨outputs, laidOut, ran⟩ := runsLift ran
  obtain ⟨_, laidOut', ran'⟩ := runsLift ran'
  obtain rfl := Except.ok.inj (laidOut.symm.trans laidOut')
  obtain ⟨⟨taps, capture⟩, m₃, tapped, ran⟩ := runsBind ran
  obtain ⟨⟨taps', capture'⟩, m₃', tapped', ran'⟩ := runsBind ran'
  obtain ⟨symbols, m₄, wrapped, ran⟩ := runsBind ran
  obtain ⟨symbols', m₄', wrapped', ran'⟩ := runsBind ran'
  obtain ⟨rfl, rfl⟩ := runsPure ran
  obtain ⟨rfl, rfl⟩ := runsPure ran'
  obtain ⟨compute, update⟩ := wrappersSymbols wrapped
  obtain ⟨compute', update'⟩ := wrappersSymbols wrapped'
  exact ⟨rfl, rfl, rfl, compute.trans compute'.symm, update.trans update'.symm, functions,
    wrappersWrapped built (buildTapsRuns tapped).1 wrapped, wrappersWrapped built (buildTapsRuns tapped').1 wrapped'⟩

end Simulator

theorem Engine.wrapsSame {engine engine' : Engine} {name : String} {outer : Nat → Emit Unit} {inner : Emit Unit}
    {callee : Nat} (fresh : engine.platform.host.fresh = engine'.platform.host.fresh)
    (outerWrites : Emit.Writes (· = callee) (outer callee)) (innerWrites : Emit.Writes (fun _ => False) inner) (wraps : engine.WrapsAt name outer inner callee)
    (wraps' : engine'.WrapsAt name outer inner callee) : engine.invoke name = engine'.invoke name := by
  obtain ⟨outside, written, only⟩ := outerWrites.code
  obtain ⟨inside, written', none⟩ := innerWrites.code
  obtain ⟨code, code', emitted, emitted', context, context', invoked, called, same, same'⟩ := wraps
  obtain ⟨_, _, again, again', other, other', invoked', called', same'', same'''⟩ := wraps'
  obtain rfl := Except.ok.inj (emitted.symm.trans written)
  obtain rfl := Except.ok.inj (emitted'.symm.trans written')
  obtain rfl := Except.ok.inj (again.symm.trans written)
  obtain rfl := Except.ok.inj (again'.symm.trans written')
  funext args memory
  rw [invoked, invoked']
  refine Code.runCalls (same.trans (fresh.trans same''.symm)) (fun function args memory known => ?_) only _ _
  obtain rfl : function = callee := known
  rw [called, called']
  exact Code.runCalls (same'.trans (fresh.trans same'''.symm)) (fun _ _ _ => False.elim) none _ _

namespace Simulator
open Build

structure Twins (sim sim' : Simulator) : Prop where
  inputs : sim.inputs = sim'.inputs
  outputs : sim.outputs = sim'.outputs
  state : sim.state = sim'.state
  stateBytes : sim.stateBytes = sim'.stateBytes
  compute : sim.engine.invoke sim.symbols.compute = sim'.engine.invoke sim'.symbols.compute
  update : sim.engine.invoke sim.symbols.update = sim'.engine.invoke sim'.symbols.update

inductive Alongside : Except Fault Simulator → Except Fault Simulator → Prop
  | refused (fault : Fault) : Alongside (.error fault) (.error fault)
  | done {next next' : Simulator} (twins : next.Twins next') : Alongside (.ok next) (.ok next')

section Twins

variable {sim sim' : Simulator} (twins : sim.Twins sim')
include twins

theorem stageTwins (put : Record → Nat → Except Fault Record) (name : String) (bits : Nat) :
    Alongside (do
        let index ← sim.checkInput name bits
        return { sim with inputs := ← put sim.inputs index })
      (do
        let index ← sim'.checkInput name bits
        return { sim' with inputs := ← put sim'.inputs index }) := by
  have checked : sim.checkInput name bits = sim'.checkInput name bits := by
    rw [checkInput, checkInput, twins.inputs]
  rw [checked, twins.inputs]
  cases sim'.checkInput name bits with
  | error fault => exact .refused fault
  | ok index =>
    simp only [bind, Except.bind]
    cases put sim'.inputs index with
    | error fault => exact .refused fault
    | ok inputs => exact .done { twins with inputs := rfl }

theorem checkTwins : sim.checkBuffers = sim'.checkBuffers := by
  simp only [checkBuffers, twins.inputs, twins.outputs, twins.state, twins.stateBytes]

theorem computeTwins : Alongside sim.compute sim'.compute := by
  have invoked : sim.invoke sim.symbols.compute [sim.inputs.data, sim.outputs.data, sim.state] =
      sim'.invoke sim'.symbols.compute [sim'.inputs.data, sim'.outputs.data, sim'.state] := by
    rw [invoke, invoke, twins.compute, twins.inputs, twins.outputs, twins.state]
  rw [compute, compute, invoked, checkTwins twins, twins.outputs]
  cases sim'.checkBuffers with
  | error fault => exact .refused fault
  | ok =>
    simp only [bind, Except.bind]
    cases sim'.invoke sim'.symbols.compute [sim'.inputs.data, sim'.outputs.data, sim'.state] with
    | error fault => exact .refused fault
    | ok memory => exact .done { twins with outputs := rfl, state := rfl }

theorem updateTwins : Alongside sim.update sim'.update := by
  have invoked : sim.invoke sim.symbols.update [sim.inputs.data, sim.state] =
      sim'.invoke sim'.symbols.update [sim'.inputs.data, sim'.state] := by
    rw [invoke, invoke, twins.update, twins.inputs, twins.state]
  rw [update, update, invoked, checkTwins twins]
  cases sim'.checkBuffers with
  | error fault => exact .refused fault
  | ok =>
    simp only [bind, Except.bind]
    cases sim'.invoke sim'.symbols.update [sim'.inputs.data, sim'.state] with
    | error fault => exact .refused fault
    | ok memory => exact .done { twins with state := rfl }

theorem attemptTwins (call : Call) : Alongside (sim.attempt call) (sim'.attempt call) := by
  cases call with
  | compute => exact computeTwins twins
  | update => exact updateTwins twins
  | set name value => exact stageTwins twins (fun record index => record.set (.position index) value) name _
  | setWord name value =>
    exact stageTwins twins (fun record index => record.setWord (.position index) value.toNat) name _

theorem callTwins (call : Call) : Result.outcome (sim.attempt call) = Result.outcome (sim'.attempt call) ∧
    (sim.call call).Twins (sim'.call call) := by
  have both := attemptTwins twins call
  rw [Simulator.call, Simulator.call]
  generalize sim.attempt call = tried at both
  generalize sim'.attempt call = tried' at both
  cases both with
  | refused fault => exact ⟨rfl, twins⟩
  | done later => exact ⟨rfl, later⟩

theorem afterTwins (calls : List Call) : (sim.after calls).Twins (sim'.after calls) := by
  induction calls generalizing sim sim' with
  | nil => exact twins
  | cons call rest ih => exact ih (callTwins twins call).2

end Twins

section Builds

variable {platform : Platform} {circuit : Circuit} {library : Library} {settings : Settings} {top : Nat}
  {sim sim' : Simulator} (built : ofCircuit platform circuit library { settings with taps := true } top = .ok sim)
include built

theorem builtRecordable {graph : Graph} (flat : circuit.flatten library top = .ok graph) : graph.Recordable := by
  obtain ⟨taps, -, laidOut⟩ := ofCircuitTaps built rfl flat
  exact Taps.ofGraphIff.mp ⟨taps, laidOut⟩

theorem builtTwins (built' : ofCircuit platform circuit library { settings with taps := false } top = .ok sim') :
    sim.Twins sim' := by
  obtain ⟨-, reachable, made, m, handle, engine, searched, ran, added, rfl⟩ := ofCircuitPlan built
  obtain ⟨-, reachable', made', m', handle', engine', searched', ran', added', rfl⟩ := ofCircuitPlan built'
  obtain rfl := Except.ok.inj (searched.symm.trans searched')
  have shared := planShared ran ran'
  obtain ⟨functions, wrapped, wrapped'⟩ := shared.functions
  have consistent := (planRuns ran).1.consistent ⟨List.nodup_nil, nofun⟩
  have consistent' := (planRuns ran').1.consistent ⟨List.nodup_nil, nofun⟩
  have supplied := Circuit.flattenSupplied (planRuns ran).2.graph
  have fresh : engine.platform.host.fresh = engine'.platform.host.fresh := by
    rw [Engine.addPlatform added, Engine.addPlatform added']
  -- both wrappers call one function of one graph
  obtain ⟨compute', update', computes', updates'⟩ := wrapped'
  rw [← shared.compute, ← shared.inputs, ← shared.outputs] at compute'
  rw [← shared.update, ← shared.inputs] at update'
  rw [← shared.graph] at computes' updates'
  have compute := Engine.wrapsSame fresh (Wrapper.computeBodyWrites _ _ _) (Graph.computeBodyWrites supplied)
    (Engine.addWrapsAt added consistent wrapped.compute wrapped.computes)
    (Engine.addWrapsAt added' consistent' compute' computes')
  have update := Engine.wrapsSame fresh (Wrapper.updateBodyWrites _ _) (Graph.updateBodyWrites supplied)
    (Engine.addWrapsAt added consistent wrapped.update wrapped.updates)
    (Engine.addWrapsAt added' consistent' update' updates')
  refine ⟨shared.inputs, shared.outputs, ?_, ?_, ?_, ?_⟩
  · rw [assembled, assembled, shared.graph]
  · rw [assembled, assembled, shared.graph]
  · exact compute.trans (congrArg engine'.invoke shared.compute)
  · exact update.trans (congrArg engine'.invoke shared.update)

end Builds

/-- Taps show only in whether a record can hold them. If it can, and the backend has nothing against the functions for
them, a build has one outcome with taps and without; if not, it fails with taps. When the library keeps to what compiled
code can handle, this is a matter of names. What is built answers every call alike, and has the same records and the
same state after it. -/
theorem tapsUnseen (platform : Platform) (circuit : Circuit) (library : Library) (settings : Settings) (top : Nat) :
    let build (taps : Bool) := ofCircuit platform circuit library { settings with taps := taps } top
    (platform.backend.Handles library → (∀ graph, circuit.flatten library top = .ok graph → graph.Recordable) →
      Result.outcome (build true) = Result.outcome (build false)) ∧
    (∀ graph, circuit.flatten library top = .ok graph → ¬graph.Recordable → ∃ fault, build true = .error fault) ∧
    (library.Sound → ∀ graph, circuit.flatten library top = .ok graph →
      (graph.Recordable ↔ (graph.taps.map fun tap => tapName tap.path tap.pin).Nodup)) ∧
    ∀ sim sim', build true = .ok sim → build false = .ok sim' → ∀ calls,
      (∀ call, Result.outcome ((sim.after calls).attempt call) = Result.outcome ((sim'.after calls).attempt call)) ∧
        (sim.after calls).inputs = (sim'.after calls).inputs ∧ (sim.after calls).outputs = (sim'.after calls).outputs ∧
          (sim.after calls).stateData = (sim'.after calls).stateData := by
  refine ⟨fun handles recordable => ?_, fun graph flat crowded => ?_, fun sound graph flat => ?_,
    fun sim sim' built built' calls => ?_⟩
  · exact ofCircuitSame (fun reachable => planTapped handles recordable reachable nofun ⟨rfl, rfl⟩)
      fun alike => alike.imports
  · cases built : ofCircuit platform circuit library { settings with taps := true } top with
    | error fault => exact ⟨fault, built⟩
    | ok sim => exact absurd (builtRecordable built flat) crowded
  · obtain ⟨design, of, flattened⟩ := Circuit.flattenOf flat
    exact Graph.recordableIff (flattened.soundWellFormed sound of) (flattened.tapsFit of)
  · have twins := afterTwins (builtTwins built built') calls
    refine ⟨fun call => (callTwins twins call).1, twins.inputs, twins.outputs, ?_⟩
    rw [stateData, stateData, twins.state, twins.stateBytes]

theorem countersTapless : ∃ sim sim', ofCircuit default counters .builtin { taps := true } 1 = .ok sim ∧
    ofCircuit default counters .builtin { taps := false } 1 = .ok sim' ∧
      (sim.after [.set "step" 3, .update, .update]).stateData = #[6, 3] ∧
        (sim'.after [.set "step" 3, .update, .update]).stateData = #[6, 3] := by
  have evaluated : (ofCircuit default counters .builtin { taps := true } 1).toOption.any (fun sim =>
      decide ((sim.after [.set "step" 3, .update, .update]).stateData = #[6, 3])) = true := by
    decide +kernel
  obtain ⟨sim, built, counted⟩ := Result.okAny evaluated
  obtain ⟨same, -, -, unseen⟩ := tapsUnseen default counters .builtin {} 1
  have outcomes : Result.outcome (ofCircuit default counters .builtin { taps := true } 1) =
      Result.outcome (ofCircuit default counters .builtin { taps := false } 1) :=
    same (Backend.Accepts.handles fun _ _ _ _ _ => rfl) fun graph flat =>
      @builtRecordable default counters .builtin {} 1 sim built graph flat
  rw [built] at outcomes
  cases built' : ofCircuit default counters .builtin { taps := false } 1 with
  | error fault =>
    rw [built'] at outcomes
    cases outcomes
  | ok sim' =>
    obtain ⟨-, -, -, state⟩ := unseen sim sim' built built' [.set "step" 3, .update, .update]
    exact ⟨sim, sim', built, rfl, of_decide_eq_true counted, state ▸ of_decide_eq_true counted⟩

def dotted : Circuit := ⟨[
  { name := "cell"
    inputs := [⟨"x.in", 4⟩]
    outputs := [⟨"out", 4⟩]
    instances := [⟨"x", .primitive "register" [("width", 4)]⟩]
    nets := [⟨.own "x.in", [.of "x" "in"]⟩, ⟨.of "x" "out", [.own "out"]⟩] },
  { name := "t"
    inputs := [⟨"d", 4⟩]
    outputs := [⟨"q", 4⟩]
    instances := [⟨"u", .definition "cell"⟩]
    nets := [⟨.own "d", [.of "u" "x.in"]⟩, ⟨.of "u" "out", [.own "q"]⟩] }], none⟩

theorem dottedRefused : dotted.validate = .ok () ∧ (∃ sim, ofCircuit default dotted .builtin { taps := false } 1 = .ok sim) ∧
    Result.outcome (ofCircuit default dotted .builtin { taps := true } 1) =
      .error (.invalidCircuit (.duplicateMember "u.x.in")) := by
  have untapped : (ofCircuit default dotted .builtin { taps := false } 1).toOption.any (fun _ => true) = true := by
    decide +kernel
  obtain ⟨sim, built, -⟩ := Result.okAny untapped
  exact ⟨by decide +kernel, ⟨sim, built⟩, by decide +kernel⟩

end Simulator

end CircuitSim
