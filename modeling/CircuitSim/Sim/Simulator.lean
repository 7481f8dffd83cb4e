import CircuitSim.Circuit.Check
import CircuitSim.Flat.Flatten
import CircuitSim.Link.Engine
import CircuitSim.Settings
import CircuitSim.Sim.Taps
import CircuitSim.Sim.Wrapper

/-!
A compiled circuit that can be driven: stage inputs, compute the outputs from them and the state, advance the
state. `compute` leaves the state as it is, and `update` changes nothing else. Compiled code is called on buffers of
the sizes that it was compiled for; where it stops the program, there is nothing left to be driven.
-/
namespace CircuitSim

structure Simulator where
  top : String
  inputs : Record
  outputs : Record
  /-- The state, with a margin that accesses to the last memory word may reach into. -/
  state : Bytes
  stateBytes : Nat
  engine : Engine
  handle : Nat
  symbols : Symbols
  taps : Option Taps
  listing : List String
  deriving Inhabited

structure Plan where
  graph : Graph
  inputs : Record
  outputs : Record
  taps : Option Taps
  symbols : Symbols
  deriving DecidableEq, Repr, Inhabited

namespace Simulator

def margin : Nat := 16

def record (rules : Rules) (ports : List Port) : Except Fault Record :=
  Record.ofMembers rules (ports.map fun port => (port.name, port.width))

def buildTaps (settings : Settings) (graph : Graph) : Build (Option Taps × Option Nat) := do
  if settings.taps then
    let taps ← Build.lift (Taps.ofGraph settings.layout graph)
    let capture ← Build.capture graph taps.region.layout
    return (some taps, some capture)
  else return (none, none)

def plan (circuit : Circuit) (library : Library) (settings : Settings) (top : Nat) (reachable : List Nat) :
    Build Plan := do
  (reachable.filter (· ≠ top)).forM fun id => do
    let graph ← Build.lift (circuit.flatten library id)
    discard (Build.graph graph)
  let graph ← Build.lift (circuit.flatten library top)
  let functions ← Build.graph graph
  let inputs ← Build.lift (record settings.layout graph.inputs)
  let outputs ← Build.lift (record settings.layout (graph.outputs.map (·.1)))
  let (taps, capture) ← buildTaps settings graph
  let symbols ← Build.wrappers graph.name functions inputs.layout outputs.layout capture
  return ⟨graph, inputs, outputs, taps, symbols⟩

def ofCircuit (platform : Platform) (circuit : Circuit) (library : Library) (settings : Settings) (top : Nat) :
    Except Fault Simulator := do
  circuit.validate
  let reachable ← circuit.reachable top
  let name := (circuit.definition top).name
  let engine := Engine.empty platform
  let (plan, m) := (plan circuit library settings top reachable).run (engine.create name)
  let plan ← plan
  let (handle, engine) ← engine.add m
  return {
    top := name
    inputs := plan.inputs
    outputs := plan.outputs
    state := Bytes.zeros (plan.graph.stateBytes + margin)
    stateBytes := plan.graph.stateBytes
    engine, handle
    symbols := plan.symbols
    taps := plan.taps
    listing := m.listing }

/-- The place of input `name`, when a number of `bits` bits fits it. -/
def checkInput (sim : Simulator) (name : String) (bits : Nat) : Except Fault Nat :=
  match sim.inputs.layout.position? name with
  | none => .error (.unknownInput name)
  | some index =>
    let width := (sim.inputs.layout.members.getD index default).width
    if width < bits then .error (.valueWidth name width bits) else .ok index

def setInput (sim : Simulator) (name : String) (value : Nat) : Except Fault Simulator := do
  let index ← sim.checkInput name (Width.bitLength value)
  return { sim with inputs := ← sim.inputs.set (.position index) value }

/-- As `setInput`, for a value below `2 ^ 64`. -/
def setInputWord (sim : Simulator) (name : String) (value : Nat) : Except Fault Simulator := do
  let index ← sim.checkInput name (Width.bitLength value)
  return { sim with inputs := ← sim.inputs.setWord (.position index) value }

def checkBuffer (buffer : String) (expected : Nat) (data : Bytes) : Except Fault Unit :=
  if expected = data.size then .ok () else .error (.bufferSize buffer expected data.size)

def checkBuffers (sim : Simulator) : Except Fault Unit := do
  checkBuffer "input" sim.inputs.layout.size sim.inputs.data
  checkBuffer "output" sim.outputs.layout.size sim.outputs.data
  checkBuffer "state" (sim.stateBytes + margin) sim.state

def block (memory : Memory) (i : Nat) : Bytes := memory.getD i #[]

/-- Calls a function on buffers, and answers the buffers after the call. -/
def invoke (sim : Simulator) (name : String) (buffers : List Bytes) : Except Fault Memory :=
  match sim.engine.invoke name ((List.range buffers.length).map (.address · 0)) buffers.toArray with
  | .ok memory => .ok memory
  | .error why => .error (.trap why)

def compute (sim : Simulator) : Except Fault Simulator := do
  sim.checkBuffers
  let memory ← sim.invoke sim.symbols.compute [sim.inputs.data, sim.outputs.data, sim.state]
  return { sim with outputs := { sim.outputs with data := block memory 1 }, state := block memory 2 }

def update (sim : Simulator) : Except Fault Simulator := do
  sim.checkBuffers
  let memory ← sim.invoke sim.symbols.update [sim.inputs.data, sim.state]
  return { sim with state := block memory 1 }

/-- Fills the record of taps. -/
def capture (sim : Simulator) (taps : Taps) : Except Fault (Taps × Simulator) :=
  match sim.symbols.capture with
  | none => .ok (taps, sim)
  | some name => do
    let memory ← sim.invoke name [sim.inputs.data, sim.state, taps.region.data]
    let taps := { taps with region := { taps.region with data := block memory 2 } }
    return (taps, { sim with state := block memory 1, taps := some taps })

def getValue (sim : Simulator) (path : List String) (pin : String) : Except Fault (Nat × Simulator) := do
  sim.checkBuffers
  match sim.taps with
  | none => .error .tapsDisabled
  | some taps =>
    match taps.find? path pin with
    | none => .error (.unknownTap (".".intercalate path) pin)
    | some index => do
      checkBuffer "debug" taps.size taps.region.data
      let (taps, sim) ← sim.capture taps
      return (← taps.region.get (.position index), sim)

def stateData (sim : Simulator) : Bytes := sim.state.extract 0 sim.stateBytes

def inputNames (sim : Simulator) : List String := sim.inputs.layout.names

def outputNames (sim : Simulator) : List String := sim.outputs.layout.names

def tapRecords (sim : Simulator) : List TapRecord := (sim.taps.map (·.records)).getD []

def tapNames (sim : Simulator) : List String := sim.tapRecords.map (·.name)

end Simulator

end CircuitSim
