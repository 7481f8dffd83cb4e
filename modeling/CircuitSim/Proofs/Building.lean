import CircuitSim.Proofs.Reach
import CircuitSim.Proofs.Wrapper
import CircuitSim.Sim.Simulator

/-! What a simulator is when it has been built: every definition below the top one flattens, the functions over buffers
do what their graph says, and all numbers are zero. -/
namespace CircuitSim

structure Simulator.Serves (sim : Simulator) (graph : Graph) : Prop where
  compute : sim.engine.Wraps sim.symbols.compute (Wrapper.computeBody sim.inputs.layout sim.outputs.layout)
    graph.computeBody
  update : sim.engine.Wraps sim.symbols.update (Wrapper.updateBody sim.inputs.layout) graph.updateBody
  inputs : sim.inputs.layout.Addressable
  outputs : sim.outputs.layout.Addressable
  inputPorts : sim.inputs.layout.members.map (fun member => Port.mk member.name member.width) = graph.inputs
  outputPorts : sim.outputs.layout.members.map (fun member => Port.mk member.name member.width) =
    graph.outputs.map (·.1)
  stateBytes : sim.stateBytes = graph.stateBytes

namespace Simulator
open Build

variable {platform : Platform} {m m' : Module} {circuit : Circuit} {library : Library} {settings : Settings} {top : Nat}
  {reachable : List Nat}

inductive Tapped (settings : Settings) (graph : Graph) (m : Module) : Option Taps → Option Nat → Prop
  | off (unset : settings.taps = false) : Tapped settings graph m none none
  | on {taps : Taps} {id : Nat} (set : settings.taps = true) (made : Taps.ofGraph settings.layout graph = .ok taps)
      (has : m.Has id (graph.captureBody taps.region.layout)) : Tapped settings graph m (some taps) (some id)

theorem Tapped.later {graph : Graph} {taps : Option Taps} {capture : Option Nat}
    (tapped : Tapped settings graph m taps capture) (later : m.Extends m') : Tapped settings graph m' taps capture := by
  cases tapped with
  | off unset => exact .off unset
  | on set made has => exact .on set made (later.has has)

theorem buildTapsRuns {graph : Graph} {taps : Option Taps × Option Nat}
    (ran : (buildTaps settings graph).Runs m taps m') : m.Extends m' ∧ Tapped settings graph m' taps.1 taps.2 := by
  unfold buildTaps at ran
  split at ran
  · rename_i set
    obtain ⟨made, laidOut, ran⟩ := runsLift ran
    obtain ⟨id, between, captured, last⟩ := runsBind ran
    obtain ⟨rfl, rfl⟩ := runsPure last
    obtain ⟨later, has⟩ := captureRuns captured
    exact ⟨later, .on set laidOut has⟩
  · rename_i unset
    obtain ⟨rfl, rfl⟩ := runsPure ran
    exact ⟨.refl m', .off (Bool.eq_false_of_not_eq_true unset)⟩

structure Wrapped (plan : Plan) (m : Module) (functions : GraphFunctions) : Prop where
  compute : m.Exports plan.symbols.compute
    (Wrapper.computeBody plan.inputs.layout plan.outputs.layout functions.compute)
  update : m.Exports plan.symbols.update (Wrapper.updateBody plan.inputs.layout functions.update)
  computes : m.Has functions.compute plan.graph.computeBody
  updates : m.Has functions.update plan.graph.updateBody

theorem wrappersWrapped {graph : Graph} {functions : GraphFunctions} {inputs outputs : Record} {taps : Option Taps}
    {capture : Option Nat} {symbols : Symbols} {m₁ m₂ m₃ : Module} (built : (Build.graph graph).Runs m functions m₁)
    (later : m₁.Extends m₂)
    (wrapped : (wrappers graph.name functions inputs.layout outputs.layout capture).Runs m₂ symbols m₃) :
    Wrapped ⟨graph, inputs, outputs, taps, symbols⟩ m₃ functions := by
  obtain ⟨-, compute, update⟩ := graphRuns built
  obtain ⟨last, compute', update', -⟩ := wrappersRuns wrapped
  have all := later.trans last
  exact ⟨compute', update', all.has compute, all.has update⟩

structure Planned (circuit : Circuit) (library : Library) (settings : Settings) (top : Nat) (reachable : List Nat)
    (plan : Plan) (m : Module) : Prop where
  children : ∀ id ∈ reachable, ∃ graph, circuit.flatten library id = .ok graph
  graph : circuit.flatten library top = .ok plan.graph
  inputs : record settings.layout plan.graph.inputs = .ok plan.inputs
  outputs : record settings.layout (plan.graph.outputs.map (·.1)) = .ok plan.outputs
  functions : ∃ functions, Wrapped plan m functions
  taps : ∃ capture, Tapped settings plan.graph m plan.taps capture ∧
    Build.Captures m plan.inputs.layout capture plan.symbols.capture

theorem planRuns {made : Plan} (ran : (plan circuit library settings top reachable).Runs m made m') :
    m.Extends m' ∧ Planned circuit library settings top reachable made m' := by
  obtain ⟨_, m₁, others, ran⟩ := runsBind ran
  obtain ⟨graph, flat, ran⟩ := runsLift ran
  obtain ⟨functions, m₂, built, ran⟩ := runsBind ran
  obtain ⟨inputs, packed, ran⟩ := runsLift ran
  obtain ⟨outputs, packed', ran⟩ := runsLift ran
  obtain ⟨⟨taps, capture⟩, m₃, tapped, ran⟩ := runsBind ran
  obtain ⟨symbols, m₄, wrapped, ran⟩ := runsBind ran
  obtain ⟨rfl, rfl⟩ := runsPure ran
  have each : ∀ {id : Nat} {m m' : Module} {r : Unit}, Build.Runs (do
      let graph ← Build.lift (circuit.flatten library id)
      discard (Build.graph graph)) m r m' → m.Extends m' ∧ ∃ graph, circuit.flatten library id = .ok graph := by
    intro id m m' r ran
    obtain ⟨graph, flat, ran⟩ := runsLift ran
    obtain ⟨_, built⟩ := runsDiscard ran
    exact ⟨(graphRuns built).1, graph, flat⟩
  obtain ⟨first, all⟩ := runsForM Module.Extends.refl Module.Extends.trans others fun ran => (each ran).1
  obtain ⟨second, -⟩ := graphRuns built
  obtain ⟨third, captured⟩ := buildTapsRuns tapped
  obtain ⟨fourth, -, -, capture'⟩ := wrappersRuns wrapped
  refine ⟨(first.trans second).trans (third.trans fourth), fun id mem => ?_, flat, packed, packed',
    ⟨functions, wrappersWrapped built third wrapped⟩, capture, captured.later fourth, capture'⟩
  by_cases own : id = top
  · rw [own]
    exact ⟨graph, flat⟩
  · obtain ⟨before, _, after, ran⟩ := all id (List.mem_filter.mpr ⟨mem, decide_eq_true own⟩)
    exact (each ran).2

theorem recordPorts {rules : Rules} {ports : List Port} {made : Record} (ok : record rules ports = .ok made)
    (narrow : ∀ port ∈ ports, port.width ≤ 128) (small : made.layout.size < 2 ^ 31) :
    made.layout.Addressable ∧ made.layout.members.map (fun member => Port.mk member.name member.width) = ports ∧
      made.data = Bytes.zeros made.layout.size := by
  obtain ⟨layout, laidOut, rfl⟩ := Result.okMap ok
  obtain ⟨placed, -, entries⟩ := Layout.ofMembersPlaced laidOut
  have same : layout.members.map (fun member => Port.mk member.name member.width) = ports := by
    have again := congrArg (List.map fun entry : String × Nat => Port.mk entry.1 entry.2) entries
    simpa [List.map_map, Function.comp_def] using again
  refine ⟨⟨placed, fun member mem => ?_, small⟩, same, rfl⟩
  have listed : Port.mk member.name member.width ∈ ports := same ▸ List.mem_map.mpr ⟨member, mem, rfl⟩
  exact narrow _ listed

inductive Instrumented (sim : Simulator) (settings : Settings) (graph : Graph) : Option Taps → Prop
  | off (unset : settings.taps = false) : Instrumented sim settings graph none
  | on {taps : Taps} {name : String} (set : settings.taps = true)
      (made : Taps.ofGraph settings.layout graph = .ok taps) (named : sim.symbols.capture = some name)
      (wraps : sim.engine.Wraps name (Wrapper.captureBody sim.inputs.layout) (graph.captureBody taps.region.layout)) :
      Instrumented sim settings graph (some taps)

structure Linked (sim : Simulator) (settings : Settings) (graph : Graph) : Prop where
  compute : sim.engine.Wraps sim.symbols.compute (Wrapper.computeBody sim.inputs.layout sim.outputs.layout)
    graph.computeBody
  update : sim.engine.Wraps sim.symbols.update (Wrapper.updateBody sim.inputs.layout) graph.updateBody
  taps : sim.Instrumented settings graph sim.taps

structure Fresh (circuit : Circuit) (library : Library) (settings : Settings) (top : Nat) (sim : Simulator)
    (graph : Graph) : Prop where
  checked : circuit.validate = .ok ()
  children : ∀ path id, circuit.Within top path id → ∃ child, circuit.flatten library id = .ok child
  flat : circuit.flatten library top = .ok graph
  serves : sim.Serves graph
  inputs : sim.inputs.data = Bytes.zeros sim.inputs.layout.size
  outputs : sim.outputs.data = Bytes.zeros sim.outputs.layout.size
  state : sim.state = Bytes.zeros (graph.stateBytes + 16)
  taps : sim.Instrumented settings graph sim.taps

def assembled (top : String) (plan : Plan) (m : Module) (handle : Nat) (engine : Engine) : Simulator where
  top := top
  inputs := plan.inputs
  outputs := plan.outputs
  state := Bytes.zeros (plan.graph.stateBytes + margin)
  stateBytes := plan.graph.stateBytes
  engine := engine
  handle := handle
  symbols := plan.symbols
  taps := plan.taps
  listing := m.listing

theorem ofCircuitPlan {sim : Simulator} (ok : ofCircuit platform circuit library settings top = .ok sim) :
    circuit.validate = .ok () ∧ ∃ reachable made m handle engine, circuit.reachable top = .ok reachable ∧
      (plan circuit library settings top reachable).Runs ((Engine.empty platform).create (circuit.definition top).name)
        made m ∧ (Engine.empty platform).add m = .ok (handle, engine) ∧
          sim = assembled (circuit.definition top).name made m handle engine := by
  obtain ⟨_, checked, ok⟩ := Result.okBind ok
  obtain ⟨reachable, searched, ok⟩ := Result.okBind ok
  obtain ⟨made, planned, ok⟩ := Result.okBind ok
  obtain ⟨⟨handle, engine⟩, added, done⟩ := Result.okBind ok
  exact ⟨checked, reachable, made, _, handle, engine, searched, Prod.ext planned rfl, added, (Except.ok.inj done).symm⟩

theorem assembledLinked {name : String} {made : Plan} {handle : Nat} {engine : Engine}
    (planned : Planned circuit library settings top reachable made m) (consistent : m.Consistent)
    (added : (Engine.empty platform).add m = .ok (handle, engine)) :
    (assembled name made m handle engine).Linked settings made.graph := by
  obtain ⟨functions, wrapped⟩ := planned.functions
  obtain ⟨capture, tapped, captures⟩ := planned.taps
  refine ⟨Engine.addWraps added consistent wrapped.compute wrapped.computes,
    Engine.addWraps added consistent wrapped.update wrapped.updates, ?_⟩
  cases made with
  | mk graph records outs taps symbols =>
    cases tapped with
    | off unset => exact .off unset
    | on set laidOut has =>
      obtain ⟨symbol, named, exported⟩ := captures
      exact .on set laidOut named (Engine.addWraps added consistent exported has)

theorem ofCircuitTaps {sim : Simulator} (ok : ofCircuit platform circuit library settings top = .ok sim)
    (set : settings.taps = true) {graph : Graph} (flat : circuit.flatten library top = .ok graph) :
    ∃ taps, sim.taps = some taps ∧ Taps.ofGraph settings.layout graph = .ok taps := by
  obtain ⟨-, reachable, made, m, handle, engine, -, ran, -, rfl⟩ := ofCircuitPlan ok
  obtain ⟨-, planned⟩ := planRuns ran
  obtain ⟨capture, tapped, -⟩ := planned.taps
  obtain rfl := Except.ok.inj (planned.graph.symm.trans flat)
  rw [assembled]
  generalize made.taps = taps at tapped
  cases tapped with
  | off unset => cases unset.symm.trans set
  | on _ laidOut => exact ⟨_, rfl, laidOut⟩

theorem ofCircuitFresh {sim : Simulator} (ok : ofCircuit platform circuit library settings top = .ok sim)
    (small : sim.inputs.layout.size < 2 ^ 31) (small' : sim.outputs.layout.size < 2 ^ 31) :
    ∃ graph, Fresh circuit library settings top sim graph := by
  obtain ⟨checked, reachable, made, m, handle, engine, searched, ran, added, rfl⟩ := ofCircuitPlan ok
  obtain ⟨later, planned⟩ := planRuns ran
  have linked := @assembledLinked platform m circuit library settings top reachable (circuit.definition top).name made
    handle engine planned (later.consistent ⟨List.nodup_nil, nofun⟩) added
  obtain ⟨design, of, flattened⟩ := Circuit.flattenOf planned.graph
  obtain ⟨narrow, narrow'⟩ := flattened.portsNarrow of
  obtain ⟨fit, ports, zero⟩ := recordPorts planned.inputs (fun port mem => (narrow port mem).2) small
  obtain ⟨fit', ports', zero'⟩ := recordPorts planned.outputs (fun port mem => by
    obtain ⟨output, member, rfl⟩ := List.mem_map.mp mem
    exact (narrow' output member).2) small'
  exact ⟨made.graph, checked, fun path id within => planned.children id (Circuit.withinReachable searched within),
    planned.graph, ⟨linked.compute, linked.update, fit, fit', ports, ports', rfl⟩, zero, zero', rfl, linked.taps⟩

end Simulator

end CircuitSim
