import CircuitSim.Circuit.Basic

/-!
Checks of a circuit that need no knowledge of primitives: port names distinct and widths positive, instance
names usable in a pin name and distinct, and every instantiated definition present.
-/
namespace CircuitSim.Circuit

def checkPorts (definition : Definition) : List String → List Port → Except Fault Unit
  | _, [] => .ok ()
  | seen, port :: rest =>
    if port.name ∈ seen then .error (.invalidCircuit (.duplicatePort port.name definition.name))
    else if port.width = 0 then .error (.invalidCircuit (.zeroWidthPort port.name definition.name))
    else checkPorts definition (port.name :: seen) rest

/-- An instance name stands before the dot of a pin name, and `self` is taken. -/
def usableName (name : String) : Bool :=
  name ≠ "self" && name ≠ "" && !name.toList.contains '.'

def checkInstances (circuit : Circuit) (definition : Definition) :
    List String → List Instance → Except Fault Unit
  | _, [] => .ok ()
  | seen, inst :: rest =>
    if !usableName inst.name then .error (.invalidCircuit (.instanceName inst.name definition.name))
    else if inst.name ∈ seen then .error (.invalidCircuit (.duplicateInstance inst.name definition.name))
    else do
      match inst.part with
      | .definition name => discard (circuit.lookup name)
      | .primitive .. => pure ()
      checkInstances circuit definition (inst.name :: seen) rest

def validate (circuit : Circuit) : Except Fault Unit :=
  circuit.definitions.forM fun definition => do
    checkPorts definition [] (definition.inputs ++ definition.outputs)
    circuit.checkInstances definition [] definition.instances

end CircuitSim.Circuit
