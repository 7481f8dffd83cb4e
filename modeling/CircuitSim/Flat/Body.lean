import CircuitSim.Flat.Graph
import CircuitSim.Primitive.Code

/-!
The code of a graph. Every body first computes the outputs of all nodes, in the graph's order, from the inputs
and the state as they are on entry; only then does it store anything.
-/
namespace CircuitSim

/-- The values of the inputs, and of the nodes that have been computed. -/
structure Signals where
  inputs : List Ref
  nodes : Array (Option Ref)
  deriving DecidableEq, Repr

namespace Signals

def get? (signals : Signals) : Source → Option Ref
  | .input k => signals.inputs[k]?
  | .node i => signals.nodes[i]?.join

/-- A source that has no value yet stops the program. -/
def get (signals : Signals) (source : Source) : Emit Ref := Emit.ofOption (signals.get? source)

def getAll (signals : Signals) (sources : List (Option Source)) : Emit (List Ref) :=
  Emit.ofOption (sources.mapM fun source => source.bind signals.get?)

def set (signals : Signals) (i : Nat) (value : Ref) : Signals :=
  { signals with nodes := signals.nodes.setIfInBounds i (some value) }

end Signals

namespace Graph

def params (graph : Graph) : Emit (List Ref) := (List.range graph.inputs.length).mapM Emit.param

def computeNode (graph : Graph) (state : Ref) (signals : Signals) (i : Nat) : Emit Signals := do
  let node ← Emit.ofOption graph.nodes[i]?
  let args ← signals.getAll (node.primitive.reads.map fun k => node.inputs[k]?)
  let slice ← Emit.offset state node.stateOffset
  let value ← node.primitive.compute args slice
  return signals.set i value

def signals (graph : Graph) (inputs : List Ref) (state : Ref) : Emit Signals :=
  graph.order.foldlM (graph.computeNode state)
    ⟨inputs, Array.replicate graph.nodes.length none⟩

/-- Stores each output in its container behind its pointer. -/
def storeOutputs (signals : Signals) : Nat → List (Port × Source) → Emit Unit
  | _, [] => pure ()
  | param, (port, source) :: rest => do
    let ptr ← Emit.param param
    let value ← signals.get source
    Emit.store value ptr 0 (Width.containerBytes port.width)
    storeOutputs signals (param + 1) rest

def computeBody (graph : Graph) : Emit Unit := do
  let inputs ← graph.params
  let state ← Emit.param graph.inputs.length
  let signals ← graph.signals inputs state
  storeOutputs signals (graph.inputs.length + 1) graph.outputs

def updateNodes (signals : Signals) (state : Ref) : List Node → Emit Unit
  | [] => pure ()
  | node :: rest => do
    if node.primitive.isStateful then
      let args ← signals.getAll (node.inputs.map some)
      let slice ← Emit.offset state node.stateOffset
      node.primitive.update args slice
    updateNodes signals state rest

def updateBody (graph : Graph) : Emit Unit := do
  let inputs ← graph.params
  let state ← Emit.param graph.inputs.length
  let signals ← graph.signals inputs state
  updateNodes signals state graph.nodes

def storeTaps (signals : Signals) (record : Ref) : List (Tap × Placement) → Emit Unit
  | [] => pure ()
  | (tap, placement) :: rest => do
    let value ← signals.get tap.source
    Emit.storeField record placement value
    storeTaps signals record rest

def captureBody (graph : Graph) (layout : Layout) : Emit Unit := do
  let inputs ← graph.params
  let state ← Emit.param graph.inputs.length
  let record ← Emit.param (graph.inputs.length + 1)
  let signals ← graph.signals inputs state
  storeTaps signals record (graph.taps.zip (layout.members.map (·.placement)))

end Graph

end CircuitSim
