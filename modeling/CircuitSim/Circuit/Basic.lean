import CircuitSim.Circuit.Pin
import CircuitSim.Fault

/-!
Circuits: named definitions with ports, instances of primitives or of other definitions, and nets that
carry one source pin to any number of sink pins. A definition is addressed by its place in the circuit, and
`add` keeps the names distinct.
-/
namespace CircuitSim

/-- Generator arguments by name; `set` keeps them sorted with one value a name. -/
abbrev Args := List (String × Nat)

namespace Args

def set (name : String) (value : Nat) : Args → Args
  | [] => [(name, value)]
  | (other, v) :: rest =>
    if name = other then (name, value) :: rest
    else if name < other then (name, value) :: (other, v) :: rest
    else (other, v) :: set name value rest

def ofList (pairs : List (String × Nat)) : Args :=
  pairs.foldl (fun args (name, value) => args.set name value) []

def get? (args : Args) (name : String) : Option Nat := args.lookup name

end Args

structure Port where
  name : String
  width : Nat
  deriving DecidableEq, Repr, Inhabited

inductive Part
  | primitive (kind : String) (args : Args)
  | definition (name : String)
  deriving DecidableEq, Repr, Inhabited

structure Instance where
  name : String
  part : Part
  deriving DecidableEq, Repr, Inhabited

structure Net where
  source : Pin
  sinks : List Pin
  deriving DecidableEq, Repr, Inhabited

structure Definition where
  name : String
  inputs : List Port := []
  outputs : List Port := []
  instances : List Instance := []
  nets : List Net := []
  deriving DecidableEq, Repr, Inhabited

namespace Definition

def input? (definition : Definition) (name : String) : Option Port :=
  definition.inputs.find? (·.name = name)

def output? (definition : Definition) (name : String) : Option Port :=
  definition.outputs.find? (·.name = name)

def children (definition : Definition) : List String :=
  definition.instances.filterMap fun inst =>
    match inst.part with
    | .definition name => some name
    | .primitive .. => none

end Definition

structure Circuit where
  definitions : List Definition := []
  chosen : Option Nat := none
  deriving DecidableEq, Repr, Inhabited

namespace Circuit

def empty : Circuit := {}

def size (circuit : Circuit) : Nat := circuit.definitions.length

def find? (circuit : Circuit) (name : String) : Option Nat :=
  circuit.definitions.findIdx? (·.name = name)

def lookup (circuit : Circuit) (name : String) : Except Fault Nat :=
  match circuit.find? name with
  | some id => .ok id
  | none => .error (.unknownDefinition name)

/-- The definition at a place that `find?`, `lookup`, `add` or `top` gave. -/
def definition (circuit : Circuit) (id : Nat) : Definition :=
  circuit.definitions.getD id default

def add (circuit : Circuit) (definition : Definition) : Except Fault (Nat × Circuit) :=
  match circuit.find? definition.name with
  | some _ => .error (.invalidCircuit (.duplicateDefinition definition.name))
  | none => .ok (circuit.size, { circuit with definitions := circuit.definitions ++ [definition] })

def addAll (circuit : Circuit) (definitions : List Definition) : Except Fault Circuit :=
  definitions.foldlM (fun circuit definition => (circuit.add definition).map (·.2)) circuit

def choose (circuit : Circuit) (id : Nat) : Circuit := { circuit with chosen := some id }

def top (circuit : Circuit) : Except Fault Nat :=
  match circuit.chosen with
  | some id => .ok id
  | none => if circuit.size = 0 then .error (.invalidCircuit .noDefinitions) else .ok (circuit.size - 1)

end Circuit

end CircuitSim
