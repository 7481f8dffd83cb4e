import CircuitSim.Code.Field
import CircuitSim.Flat.Body
import CircuitSim.Link.Module

/-!
Functions over buffers. Callers pass addresses of records only; a wrapper unpacks the input record, calls the
function of the graph, whose parameters are the single values, and packs the outputs.
-/
namespace CircuitSim

structure GraphFunctions where
  compute : Nat
  update : Nat
  deriving DecidableEq, Repr

structure Symbols where
  compute : String
  update : String
  capture : Option String
  deriving DecidableEq, Repr, Inhabited

namespace Wrapper

def loadRecord (layout : Layout) (ptr : Ref) : Emit (List Ref) :=
  layout.members.mapM fun member => Emit.loadField ptr member.placement

def storeRecord (ptr : Ref) : List (Member × Ref) → Emit Unit
  | [] => pure ()
  | (member, slot) :: rest => do
    let value ← Emit.load slot 0 (Width.containerBytes member.width)
    Emit.storeField ptr member.placement value
    storeRecord ptr rest

def computeBody (inputs outputs : Layout) (compute : Nat) : Emit Unit := do
  let input ← Emit.param 0
  let output ← Emit.param 1
  let state ← Emit.param 2
  let args ← loadRecord inputs input
  let slots ← outputs.members.mapM fun member => Emit.slot (Width.containerBytes member.width)
  Emit.call compute (args ++ state :: slots)
  storeRecord output (outputs.members.zip slots)

def updateBody (inputs : Layout) (update : Nat) : Emit Unit := do
  let input ← Emit.param 0
  let state ← Emit.param 1
  let args ← loadRecord inputs input
  Emit.call update (args ++ [state])

def captureBody (inputs : Layout) (capture : Nat) : Emit Unit := do
  let input ← Emit.param 0
  let state ← Emit.param 1
  let taps ← Emit.param 2
  let args ← loadRecord inputs input
  Emit.call capture (args ++ [state, taps])

end Wrapper

namespace Build

def graph (graph : Graph) : Build GraphFunctions := do
  let compute ← declare graph.computeSymbol graph.computeParams true
  let update ← declare graph.updateSymbol graph.updateParams true
  define compute graph.computeBody
  define update graph.updateBody
  return ⟨compute, update⟩

def capture (graph : Graph) (layout : Layout) : Build Nat := do
  let id ← declare graph.captureSymbol graph.captureParams true
  define id (graph.captureBody layout)
  return id

def wrapper (name : String) (params : Nat) (body : Emit Unit) : Build Unit := do
  let id ← declare name (List.replicate params .ptr) true
  define id body

def wrappers (name : String) (functions : GraphFunctions) (inputs outputs : Layout) (capture : Option Nat) :
    Build Symbols := do
  let compute := name ++ "_wrap_compute_output"
  wrapper compute 3 (Wrapper.computeBody inputs outputs functions.compute)
  let update := name ++ "_wrap_update_state"
  wrapper update 2 (Wrapper.updateBody inputs functions.update)
  match capture with
  | none => return ⟨compute, update, none⟩
  | some id =>
    let name := name ++ "_wrap_get_values"
    wrapper name 3 (Wrapper.captureBody inputs id)
    return ⟨compute, update, some name⟩

end Build

end CircuitSim
