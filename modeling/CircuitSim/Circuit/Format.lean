import CircuitSim.Circuit.Check
import CircuitSim.Json.Read

/-!
The JSON form of a circuit. An instance is an object with its name and either a `primitive` kind with optional
`args`, or a `definition`; the rest of the object is looked at only when all of it has been read, so the order of
its entries does not matter.
-/
namespace CircuitSim

namespace Format

open Json (Reader)

def pin : Reader Pin := fun j => (Json.readText j).map Pin.ofText

def port : Reader Port :=
  Json.readStructure
    [⟨"name", true, fun j port => (Json.readText j).map fun name => { port with name }⟩,
      ⟨"width", true, fun j port => (Json.readBelow (2 ^ 32) j).map fun width => { port with width }⟩]
    default

def net : Reader Net :=
  Json.readStructure
    [⟨"source", true, fun j net => (pin j).map fun source => { net with source }⟩,
      ⟨"sinks", true, fun j net => (Json.readList pin j).map fun sinks => { net with sinks }⟩]
    default

def valuesOf (name : String) (entries : List (String × Json)) : List Json :=
  (entries.filter (·.1 = name)).map (·.2)

def text? (values : List Json) : Option String :=
  match values with
  | [.string text] => text
  | _ => none

/-- Whole numbers by name; the last value of a name counts. -/
def args? : List (Option String × Json) → Args → Option Args
  | [], args => some args
  | (some name, .number (.whole n)) :: rest, args => args? rest (args.set name n)
  | _, _ => none

def generatorArgs? (values : List Json) : Option Args :=
  match values with
  | [] => some []
  | [.object entries _] => args? entries []
  | _ => none

def part? (entries : List (String × Json)) : Option Part :=
  match text? (valuesOf "primitive" entries), generatorArgs? (valuesOf "args" entries) with
  | some kind, some args => some (.primitive kind args)
  | _, _ => (text? (valuesOf "definition" entries)).map .definition

/-- How many containers stand around the entries of an instance. -/
def instanceDepth : Nat := 5

def instanceEntries :
    Option String → List (String × Json) → List (Option String × Json) →
      Except ReadFault (Option String × List (String × Json))
  | name, others, [] => .ok (name, others.reverse)
  | _, _, (none, _) :: _ => .error .malformed
  | name, others, (some key, item) :: rest =>
    if key = "name" then
      if name.isSome then .error .mistyped
      else do
        let text ← Json.readText item
        instanceEntries (some text) others rest
    else do
      Json.keep instanceDepth item
      instanceEntries name ((key, item) :: others) rest

def inst : Reader Instance
  | .object entries stop => do
    let found ← instanceEntries none [] entries
    let (name, others) ← Json.stopped stop found
    match name, part? others with
    | some name, some part => return ⟨name, part⟩
    | _, _ => .error .mistyped
  | j => .error j.fault

def definition : Reader Definition :=
  Json.readStructure
    [⟨"name", true, fun j d => (Json.readText j).map fun name => { d with name }⟩,
      ⟨"inputs", false, fun j d => (Json.readList port j).map fun inputs => { d with inputs }⟩,
      ⟨"outputs", false, fun j d => (Json.readList port j).map fun outputs => { d with outputs }⟩,
      ⟨"instances", false, fun j d => (Json.readList inst j).map fun instances => { d with instances }⟩,
      ⟨"nets", false, fun j d => (Json.readList net j).map fun nets => { d with nets }⟩]
    default

/-- What the text of a circuit says: the name of its top, if given, and its definitions. -/
structure Document where
  top : Option String
  definitions : List Definition
  deriving DecidableEq, Repr, Inhabited

def document : Reader Document :=
  Json.readStructure
    [⟨"top", false, fun j s => (Json.readOption Json.readText j).map fun top => { s with top }⟩,
      ⟨"definitions", true, fun j s =>
        (Json.readList definition j).map fun definitions => { s with definitions }⟩]
    default

end Format

namespace Circuit

def ofText (text : String) : Except Fault Circuit := do
  let document ← (Json.readDocument Format.document text).mapError .parse
  let circuit ← empty.addAll document.definitions
  let circuit ←
    match document.top with
    | none => pure circuit
    | some name => (circuit.lookup name).map circuit.choose
  circuit.validate
  return circuit

end Circuit

end CircuitSim
