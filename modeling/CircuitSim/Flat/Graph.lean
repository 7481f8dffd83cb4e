import CircuitSim.Primitive.Basic
import CircuitSim.Circuit.Basic

/-!
A definition as a list of primitive nodes, each input joined to what makes its value, with an order in which the
nodes can be evaluated. Stateful nodes own consecutive slices of one buffer. `taps` are the instance inputs
whose values can be captured.
-/
namespace CircuitSim

inductive Source
  | input (k : Nat)
  | node (i : Nat)
  deriving DecidableEq, Repr, Inhabited

structure Node where
  /-- The instance names down to the primitive. -/
  path : List String
  primitive : Primitive
  inputs : List Source
  stateOffset : Nat
  definition : Nat
  deriving DecidableEq, Repr, Inhabited

structure Tap where
  path : List String
  pin : String
  width : Nat
  source : Source
  definition : Nat
  deriving DecidableEq, Repr, Inhabited

inductive Param
  | int (width : Nat)
  | ptr
  deriving DecidableEq, Repr, Inhabited

structure Graph where
  name : String
  definition : Nat
  inputs : List Port
  outputs : List (Port × Source)
  nodes : List Node
  order : List Nat
  stateBytes : Nat
  taps : List Tap
  deriving DecidableEq, Repr, Inhabited

namespace Graph

def node (graph : Graph) (i : Nat) : Node := graph.nodes.getD i default

def computeSymbol (graph : Graph) : String := graph.name ++ "_compute_output"

def updateSymbol (graph : Graph) : String := graph.name ++ "_update_state"

def captureSymbol (graph : Graph) : String := graph.name ++ "_capture_values"

def inputParams (graph : Graph) : List Param := graph.inputs.map fun port => .int port.width

def computeParams (graph : Graph) : List Param :=
  graph.inputParams ++ .ptr :: graph.outputs.map fun _ => .ptr

def updateParams (graph : Graph) : List Param := graph.inputParams ++ [.ptr]

def captureParams (graph : Graph) : List Param := graph.updateParams ++ [.ptr]

end Graph

end CircuitSim
