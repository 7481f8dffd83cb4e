import CircuitSim.Proofs.Staging

/-! The buffers of a simulator keep the sizes that its code was compiled for, so that no request fails because of them,
whatever the primitives are that the code comes from. Main statement: `buffersKept`. -/
namespace CircuitSim

namespace Memory

def Keeps (memory memory' : Memory) : Prop :=
  ∀ (i : Nat) (data : Bytes), memory[i]? = some data → ∃ data', memory'[i]? = some data' ∧ data'.size = data.size

variable {memory memory' memory'' : Memory}

theorem Keeps.refl (memory : Memory) : memory.Keeps memory := fun _ data here => ⟨data, here, rfl⟩

theorem Keeps.trans (first : memory.Keeps memory') (second : memory'.Keeps memory'') : memory.Keeps memory'' := by
  intro i data here
  obtain ⟨data', here', size⟩ := first i data here
  obtain ⟨data'', here'', size'⟩ := second i data' here'
  exact ⟨data'', here'', size'.trans size⟩

theorem storeKeeps {ptr : Value} {offset : Int} {bytes n : Nat} (stored : memory.store ptr offset bytes n = .ok memory') :
    memory.Keeps memory' := by
  unfold store at stored
  split at stored
  · cases stored
    exact .refl memory
  · obtain ⟨⟨block, start⟩, -, done⟩ := Result.okBind stored
    cases done
    intro i data here
    by_cases own : block = i
    · subst own
      refine ⟨_, by rw [Array.getElem?_modify, if_pos rfl, here, Option.map_some], ?_⟩
      exact piecesSize (fun place => Word.lshr (bytes * 8) n (place * 8)) start _ data
    · exact ⟨data, by rw [Array.getElem?_modify, if_neg own, here], rfl⟩

theorem allocateKeeps (memory : Memory) (data : Bytes) : memory.Keeps (memory.allocate data).1 := by
  intro i old here
  obtain ⟨inside, -⟩ := Array.getElem?_eq_some_iff.mp here
  exact ⟨old, by rw [allocate, Array.getElem?_push_lt inside, ← here, Array.getElem?_eq_getElem inside], rfl⟩

end Memory

theorem Op.stepKeeps {context : Context} {op : Op} {frame frame' : Frame} {memory memory' : Memory}
    (stepped : op.step context frame memory = .ok (frame', memory')) : memory.Keeps memory' := by
  by_cases slot : ∃ bytes, op = .slot bytes
  · obtain ⟨bytes, rfl⟩ := slot
    cases stepped
    exact memory.allocateKeeps _
  · rw [Op.stepEval fun bytes same => slot ⟨bytes, same⟩] at stepped
    obtain ⟨value, -, done⟩ := Result.okMap stepped
    cases done
    exact .refl memory

theorem Code.runKeeps {callees : Nat → Prop} {context : Context} (keeps : ∀ function args memory memory',
      callees function → context.call function args memory = .ok memory' → memory.Keeps memory')
    {code : Code} (only : code.CallsOnly callees) {frame : Frame} {memory memory' : Memory}
    (ran : code.run context frame memory = .ok memory') : memory.Keeps memory' := by
  induction code generalizing frame memory memory' with
  | done =>
    cases ran
    exact .refl memory
  | define op rest ih =>
    rw [run] at ran
    split at ran
    · rename_i stepped
      exact (Op.stepKeeps stepped).trans (ih only ran)
    · cases ran
  | store arg ptr offset bytes rest ih =>
    rw [run] at ran
    split at ran
    · rename_i stored
      exact (Memory.storeKeeps stored).trans (ih only ran)
    · cases ran
  | call function args rest ih =>
    rw [run] at ran
    split at ran
    · rename_i called
      exact (keeps _ _ _ _ only.1 called).trans (ih only.2 ran)
    · cases ran
  | branch cond body rest ihBody ih =>
    rw [run] at ran
    split at ran
    · split at ran
      · rename_i taken
        exact (ihBody only.1 taken).trans (ih only.2 ran)
      · cases ran
    · exact ih only.2 ran

namespace Engine

def Keeps (engine : Engine) (name : String) : Prop :=
  ∀ args memory memory', engine.invoke name args memory = .ok memory' → memory.Keeps memory'

theorem Wraps.keeps {engine : Engine} {name : String} {outer : Nat → Emit Unit} {inner : Emit Unit}
    (wraps : engine.Wraps name outer inner) (writes : ∀ callee, Emit.Writes (· = callee) (outer callee))
    (writes' : Emit.Writes (fun _ => False) inner) : engine.Keeps name := by
  obtain ⟨callee, code, code', emitted, emitted', context, context', invoke, called, -⟩ := wraps
  obtain ⟨own, written, only⟩ := (writes callee).code
  obtain rfl := Except.ok.inj (emitted.symm.trans written)
  obtain ⟨own', written', only'⟩ := writes'.code
  obtain rfl := Except.ok.inj (emitted'.symm.trans written')
  intro args memory memory' ran
  rw [invoke] at ran
  refine Code.runKeeps ?_ only ran
  rintro function args memory memory' rfl ran
  rw [called] at ran
  exact Code.runKeeps (fun _ _ _ _ none => none.elim) only' ran

end Engine

namespace Simulator

inductive Calls (sim : Simulator) : String → Prop
  | compute : Calls sim sim.symbols.compute
  | update : Calls sim sim.symbols.update
  | capture {taps : Taps} {name : String} (held : sim.taps = some taps) (named : sim.symbols.capture = some name) :
    Calls sim name

structure Steady (sim next : Simulator) : Prop where
  outputs : next.outputs.layout = sim.outputs.layout
  size : next.outputs.data.size = sim.outputs.data.size
  state : next.state.size = sim.state.size
  stateBytes : next.stateBytes = sim.stateBytes
  taps : next.taps.map (·.region.layout) = sim.taps.map (·.region.layout)
  engine : next.engine = sim.engine
  symbols : next.symbols = sim.symbols

namespace Steady

variable {sim next later : Simulator}

theorem refl (sim : Simulator) : sim.Steady sim := ⟨rfl, rfl, rfl, rfl, rfl, rfl, rfl⟩

theorem trans (first : sim.Steady next) (second : next.Steady later) : sim.Steady later :=
  ⟨second.outputs.trans first.outputs, second.size.trans first.size, second.state.trans first.state,
    second.stateBytes.trans first.stateBytes, second.taps.trans first.taps, second.engine.trans first.engine,
    second.symbols.trans first.symbols⟩

theorem keeps (steady : sim.Steady next) (keeps : ∀ name, sim.Calls name → sim.engine.Keeps name) :
    ∀ name, next.Calls name → next.engine.Keeps name := by
  intro name calls
  rw [steady.engine]
  refine keeps name ?_
  cases calls with
  | compute =>
    rw [steady.symbols]
    exact .compute
  | update =>
    rw [steady.symbols]
    exact .update
  | capture held named =>
    obtain ⟨taps, held', -⟩ := Option.map_eq_some_iff.mp (steady.taps.symm.trans (congrArg _ held))
    exact .capture held' (steady.symbols ▸ named)

end Steady

section Requests

variable {sim next : Simulator}

theorem stageSteady {name : String} {payload : Record.Payload} (staged : sim.stage name payload = .ok next) :
    sim.Steady next := by
  obtain ⟨index, -, staged⟩ := Result.okBind staged
  obtain ⟨inputs, -, done⟩ := Result.okBind staged
  cases done
  exact { Steady.refl sim with }

variable (keeps : ∀ name, sim.Calls name → sim.engine.Keeps name)
include keeps

theorem invokeKeeps {name : String} (calls : sim.Calls name) {buffers : List Bytes} {memory : Memory}
    (ran : sim.invoke name buffers = .ok memory) {i : Nat} {data : Bytes} (here : buffers[i]? = some data) :
    (block memory i).size = data.size := by
  unfold invoke at ran
  split at ran
  · rename_i memory' invoked
    cases ran
    obtain ⟨data', here', size⟩ := keeps name calls _ _ _ invoked i data (by rw [List.getElem?_toArray, here])
    rw [block, Memory.blockGet here', size]
  · cases ran

theorem computeSteady (ran : sim.compute = .ok next) : sim.Steady next := by
  obtain ⟨-, -, ran⟩ := Result.okBind ran
  obtain ⟨memory, invoked, done⟩ := Result.okBind ran
  cases done
  have size {i : Nat} {data : Bytes} := @invokeKeeps sim keeps _ .compute _ memory invoked i data
  exact { Steady.refl sim with size := size rfl, state := size rfl }

theorem updateSteady (ran : sim.update = .ok next) : sim.Steady next := by
  obtain ⟨-, -, ran⟩ := Result.okBind ran
  obtain ⟨memory, invoked, done⟩ := Result.okBind ran
  cases done
  exact { Steady.refl sim with state := invokeKeeps keeps .update invoked (i := 1) rfl }

theorem captureSteady {taps taps' : Taps} (held : sim.taps = some taps) (ran : sim.capture taps = .ok (taps', next)) :
    sim.Steady next := by
  unfold capture at ran
  split at ran
  · cases ran
    exact .refl _
  · rename_i name named
    obtain ⟨memory, invoked, done⟩ := Result.okBind ran
    cases done
    refine { Steady.refl sim with state := invokeKeeps keeps (.capture held named) invoked (i := 1) rfl, taps := ?_ }
    rw [held]
    rfl

theorem askSteady (request : Request) : sim.Steady (sim.ask request).2 := by
  have called {call : Call} (steady : ∀ next, sim.attempt call = .ok next → sim.Steady next) :
      sim.Steady (sim.call call) := by
    rw [Simulator.call]
    cases tried : sim.attempt call with
    | error => exact .refl sim
    | ok next => exact steady next tried
  cases request with
  | get path pin =>
    rcases sim.getCases path pin with same | ⟨taps, taps', held, captured⟩
    · rw [same]
      exact .refl sim
    · exact captureSteady keeps held captured
  | call call =>
    cases call with
    | set name value => exact called fun next staged => @stageSteady sim next name (.number value) staged
    | setWord name value => exact called fun next staged => @stageSteady sim next name (.word value) staged
    | compute => exact called fun next => computeSteady keeps
    | update => exact called fun next => updateSteady keeps

theorem askedSteady (requests : List Request) : sim.Steady (sim.asked requests) := by
  induction requests generalizing sim with
  | nil => exact .refl sim
  | cons request rest ih =>
    have first := askSteady keeps request
    exact first.trans (ih (first.keeps keeps))

end Requests

theorem Linked.keeps {sim : Simulator} {settings : Settings} {graph : Graph} (linked : sim.Linked settings graph)
    (supplied : graph.Supplied) : ∀ name, sim.Calls name → sim.engine.Keeps name := by
  intro name calls
  cases calls with
  | compute => exact linked.compute.keeps (Wrapper.computeBodyWrites _ _) (Graph.computeBodyWrites supplied)
  | update => exact linked.update.keeps (Wrapper.updateBodyWrites _) (Graph.updateBodyWrites supplied)
  | capture held named =>
    have instrumented := linked.taps
    rw [held] at instrumented
    cases instrumented with
    | on _ _ named' wraps =>
      obtain rfl := Option.some.inj (named.symm.trans named')
      exact wraps.keeps (Wrapper.captureBodyWrites _) (Graph.captureBodyWrites supplied _)

/-- Whatever was asked of a simulator, its buffers pass the checks that come before every call of compiled code. The
library may be any, and its code may stop the program. -/
theorem buffersKept {platform : Platform} {circuit : Circuit} {library : Library} {settings : Settings} {top : Nat}
    {sim : Simulator} (built : ofCircuit platform circuit library settings top = .ok sim) (requests : List Request) :
    sim.Steady (sim.asked requests) ∧ (sim.asked requests).checkBuffers = .ok () := by
  obtain ⟨fresh, narrow⟩ := ofCircuitOffers built
  have offers := askedOffers narrow fresh requests
  obtain ⟨-, reachable, made, m, handle, engine, -, ran, added, rfl⟩ := ofCircuitPlan built
  obtain ⟨later, planned⟩ := planRuns ran
  have linked := @assembledLinked platform m circuit library settings top reachable (circuit.definition top).name made
    handle engine planned (later.consistent ⟨List.nodup_nil, nofun⟩) added
  have steady := askedSteady (linked.keeps (Circuit.flattenSupplied planned.graph)) requests
  refine ⟨steady, ?_⟩
  obtain ⟨layout, -, outputs⟩ := Result.okMap planned.outputs
  have sized : made.outputs.data.size = made.outputs.layout.size := by
    rw [← outputs]
    exact Bytes.zerosSize _
  have sized' := steady.size.trans sized
  rw [← show _ = made.outputs.layout from steady.outputs] at sized'
  have state := steady.state.trans (Bytes.zerosSize _)
  rw [← show _ = made.graph.stateBytes from steady.stateBytes] at state
  rw [checkBuffers, checkBuffer, checkBuffer, checkBuffer, if_pos offers.maps.sized.symm, if_pos sized'.symm,
    if_pos state.symm]
  rfl

end Simulator

end CircuitSim
