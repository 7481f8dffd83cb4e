import CircuitSim.Circuit.Basic
import CircuitSim.Primitive.Library

/-!
A definition with every instance below it replaced by what it is an instance of. The instances of one definition
form a list in which an entry is a primitive or another definition's instances and wires; wires join terminals
of that one definition, and a sink has at most one wire. Building a hierarchy makes every check that concerns
ports, primitives and nets.
-/
namespace CircuitSim

structure Interface where
  inputs : List Port
  outputs : List Port
  deriving DecidableEq, Repr, Inhabited

def Definition.interface (definition : Definition) : Interface := ⟨definition.inputs, definition.outputs⟩

def Primitive.interface (primitive : Primitive) : Interface :=
  ⟨primitive.inputs.map fun (name, width) => ⟨name, width⟩, [⟨primitive.output.1, primitive.output.2⟩]⟩

/-- A place where a wire can end: port `k` of the definition itself, or pin `k` of its instance number `inst`. -/
inductive Terminal
  | port (k : Nat)
  | pin (inst k : Nat)
  deriving DecidableEq, Repr, Inhabited

/-- The sink is an own output or an instance's input, the source an own input or an instance's output. -/
structure Wire where
  sink : Terminal
  source : Terminal
  deriving DecidableEq, Repr, Inhabited

inductive Hierarchy
  | empty
  | primitive (name : String) (primitive : Primitive) (rest : Hierarchy)
  | scope (name : String) (definition : Nat) (interface : Interface) (wires : List Wire)
    (inner rest : Hierarchy)
  deriving DecidableEq, Repr, Inhabited

structure Design where
  name : String
  definition : Nat
  interface : Interface
  wires : List Wire
  body : Hierarchy
  deriving DecidableEq, Repr, Inhabited

namespace Hierarchy

/-- How errors and taps name pin `pin` at instance path `path`. -/
def pinName (path : List String) (pin : String) : String :=
  if path.isEmpty then s!"self.{pin}" else ".".intercalate path ++ "." ++ pin

def placeName (path : List String) (pin : Pin) : String :=
  match pin.owner with
  | none => pinName path pin.port
  | some owner => pinName (path ++ [owner]) pin.port

def interfaces : Hierarchy → List (String × Interface)
  | empty => []
  | primitive name p rest => (name, p.interface) :: rest.interfaces
  | scope name _ interface _ _ rest => (name, interface) :: rest.interfaces

def findLast? {α : Type} (name : String) : Nat → List (String × α) → Option (Nat × α)
  | _, [] => none
  | i, (key, x) :: rest =>
    match findLast? name (i + 1) rest with
    | some found => some found
    | none => if key = name then some (i, x) else none

def findPort? (name : String) : Nat → List Port → Option (Nat × Nat)
  | _, [] => none
  | k, port :: rest => if port.name = name then some (k, port.width) else findPort? name (k + 1) rest

/-- The terminal and width of a pin among the ports on the right side; a port on the other side is `wrong`. -/
def pick (definition : Definition) (pin : Pin) (right other : List Port) (terminal : Nat → Terminal)
    (wrong : Defect) : Except Fault (Terminal × Nat) :=
  match findPort? pin.port 0 right with
  | some (k, width) => .ok (terminal k, width)
  | none =>
    if other.any (·.name = pin.port) then .error (.invalidCircuit wrong)
    else .error (.unknownPin pin.text definition.name)

def source (definition : Definition) (locals : List (String × Interface)) (pin : Pin) :
    Except Fault (Terminal × Nat) :=
  let wrong := .notASource pin.text definition.name
  match pin.owner with
  | none => pick definition pin definition.inputs definition.outputs .port wrong
  | some owner =>
    match findLast? owner 0 locals with
    | some (i, interface) => pick definition pin interface.outputs interface.inputs (.pin i) wrong
    | none => .error (.unknownPin pin.text definition.name)

def sink (definition : Definition) (locals : List (String × Interface)) (pin : Pin) :
    Except Fault (Terminal × Nat) :=
  let wrong := .notASink pin.text definition.name
  match pin.owner with
  | none => pick definition pin definition.outputs definition.inputs .port wrong
  | some owner =>
    match findLast? owner 0 locals with
    | some (i, interface) => pick definition pin interface.inputs interface.outputs (.pin i) wrong
    | none => .error (.unknownPin pin.text definition.name)

/-- Wires from one source to the sinks of a net, in front of the wires so far. -/
def connect (path : List String) (definition : Definition) (locals : List (String × Interface)) (net : Net)
    (terminal : Terminal) (width : Nat) : List Pin → List Wire → Except Fault (List Wire)
  | [], wires => .ok wires
  | pin :: rest, wires => do
    let (target, targetWidth) ← sink definition locals pin
    if targetWidth ≠ width then
      .error (.netWidth (placeName path net.source) (placeName path pin) width targetWidth)
    else if wires.any (·.sink = target) then .error (.multipleDrivers (placeName path pin))
    else connect path definition locals net terminal width rest (⟨target, terminal⟩ :: wires)

def connectAll (path : List String) (definition : Definition) (locals : List (String × Interface)) :
    List Net → List Wire → Except Fault (List Wire)
  | [], wires => .ok wires
  | net :: rest, wires => do
    let (terminal, width) ← source definition locals net.source
    let wires ← connect path definition locals net terminal width net.sinks wires
    connectAll path definition locals rest wires

def checkPortWidths (path : List String) (ports : List Port) : Except Fault Unit :=
  ports.forM fun port => checkWidth s!"port `{pinName path port.name}`" port.width

/-- The instances of a definition at `path`; `expand` builds the wires and instances of a definition. -/
def expandInstances (circuit : Circuit) (library : Library)
    (expand : List String → Nat → Except Fault (List Wire × Hierarchy)) (path : List String) :
    List Instance → Except Fault Hierarchy
  | [] => .ok empty
  | inst :: rest =>
    match inst.part with
    | .primitive kind args => do
      let p ← library.build kind args (".".intercalate (path ++ [inst.name]))
      return primitive inst.name p (← expandInstances circuit library expand path rest)
    | .definition name => do
      let child ← circuit.lookup name
      let (wires, inner) ← expand (path ++ [inst.name]) child
      return scope inst.name child (circuit.definition child).interface wires inner
        (← expandInstances circuit library expand path rest)

/-- The wires and instances of definition `id` at `path`. Without recursive instantiation a depth of the
circuit's size is enough. -/
def expand (circuit : Circuit) (library : Library) :
    Nat → List String → Nat → Except Fault (List Wire × Hierarchy)
  | 0, _, id => .error (.invalidCircuit (.recursive (circuit.definition id).name []))
  | depth + 1, path, id => do
    let definition := circuit.definition id
    checkPortWidths path (definition.inputs ++ definition.outputs)
    let body ← expandInstances circuit library (expand circuit library depth) path definition.instances
    let wires ← connectAll path definition body.interfaces definition.nets []
    return (wires, body)

end Hierarchy

/-- The design of definition `id`, for which `Circuit.reachable` has found no recursion. -/
def Design.ofCircuit (circuit : Circuit) (library : Library) (id : Nat) : Except Fault Design := do
  let (wires, body) ← Hierarchy.expand circuit library (circuit.size + 1) [] id
  let definition := circuit.definition id
  return ⟨definition.name, id, definition.interface, wires, body⟩

end CircuitSim
