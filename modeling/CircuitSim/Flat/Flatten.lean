import CircuitSim.Circuit.Reach
import CircuitSim.Flat.Schedule
import CircuitSim.Flat.Wiring

/-!
Flattening: the primitives of a design in the order of its instances become nodes, and each of their inputs, the
outputs and the taps are followed to where their value is made.
-/
namespace CircuitSim

structure Leaf where
  path : List String
  place : Place
  primitive : Primitive
  definition : Nat
  deriving DecidableEq, Repr, Inhabited

structure TapSlot where
  path : List String
  pin : Port
  slot : Slot
  definition : Nat
  deriving DecidableEq, Repr, Inhabited

namespace Hierarchy

/-- The primitives in the instances of `definition`, which lies at `place`; the first instance has number `i`. -/
def leaves (definition : Nat) (path : List String) (place : Place) : Nat → Hierarchy → List Leaf
  | _, empty => []
  | i, primitive name p rest =>
    ⟨path ++ [name], i :: place, p, definition⟩ :: leaves definition path place (i + 1) rest
  | i, scope name child _ _ inner rest =>
    leaves child (path ++ [name]) (i :: place) 0 inner ++ leaves definition path place (i + 1) rest

def inputSlots (definition : Nat) (path : List String) (place : Place) (ports : List Port) : List TapSlot :=
  ports.zipIdx.map fun (port, k) => ⟨path, port, .input place k, definition⟩

/-- The inputs of every instance, those of an instance before those inside it. -/
def tapSlots (definition : Nat) (path : List String) (place : Place) : Nat → Hierarchy → List TapSlot
  | _, empty => []
  | i, primitive name p rest =>
    inputSlots definition (path ++ [name]) (i :: place) p.interface.inputs ++
      tapSlots definition path place (i + 1) rest
  | i, scope name child interface _ inner rest =>
    inputSlots definition (path ++ [name]) (i :: place) interface.inputs ++
      (tapSlots child (path ++ [name]) (i :: place) 0 inner ++ tapSlots definition path place (i + 1) rest)

end Hierarchy

namespace Design

def leaves (design : Design) : List Leaf := design.body.leaves design.definition [] [] 0

def tapSlots (design : Design) : List TapSlot := design.body.tapSlots design.definition [] [] 0

/-- What makes the value of a slot, with primitives counted as in `leaves`. -/
def source (design : Design) (leaves : List Leaf) (slot : Slot) : Except Fault Source := do
  match ← design.origin slot with
  | .input k => return .input k
  | .primitive place => return .node (leaves.findIdx (·.place = place))

/-- The leaves as nodes; the first one's state starts at `offset`. -/
def nodes (design : Design) (all : List Leaf) : Nat → List Leaf → Except Fault (List Node)
  | _, [] => .ok []
  | offset, leaf :: rest => do
    let inputs ← (List.range leaf.primitive.inputs.length).mapM fun k =>
      design.source all (.input leaf.place k)
    let node : Node := ⟨leaf.path, leaf.primitive, inputs, offset, leaf.definition⟩
    return node :: (← design.nodes all (offset + leaf.primitive.stateBytes) rest)

-- A sum of numbers starts from the core library's zero, also where an algebra library offers its own.
attribute [local instance (2000)] Zero.ofOfNat0 in
def stateBytes (leaves : List Leaf) : Nat := (leaves.map (·.primitive.stateBytes)).sum

def flatten (design : Design) : Except Fault Graph := do
  let leaves := design.leaves
  let nodes ← design.nodes leaves 0 leaves
  let outputs ← design.interface.outputs.zipIdx.mapM fun (port, k) => do
    return (port, ← design.source leaves (.output [] k))
  let taps ← design.tapSlots.mapM fun tap => do
    return Tap.mk tap.path tap.pin.name tap.pin.width (← design.source leaves tap.slot) tap.definition
  let order ← schedule nodes
  return {
    name := design.name
    definition := design.definition
    inputs := design.interface.inputs
    outputs, nodes, order, taps
    stateBytes := stateBytes leaves }

end Design

def Circuit.flatten (circuit : Circuit) (library : Library) (id : Nat) : Except Fault Graph := do
  discard (circuit.reachable id)
  (← Design.ofCircuit circuit library id).flatten

end CircuitSim
