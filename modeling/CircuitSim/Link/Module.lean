import CircuitSim.Code.Emit
import CircuitSim.Flat.Graph

/-!
A module under construction. A function is declared by name, as an export or as an import, and is known by its
number from then on; an export is defined at most once, with a body that the backend accepts. Building goes on
after a refused step, from what that step has left.
-/
namespace CircuitSim

def Param.bits : Param → Nat
  | .int width => Width.containerBits width
  | .ptr => 64

structure Function where
  name : String
  signature : List Nat
  definable : Bool
  body : Option Code
  deriving DecidableEq, Repr, Inhabited

/-- What turns bodies into machine code. It may refuse a body for a given signature, and says why; a body that was
left unfinished may be in the way of the next. -/
structure Backend where
  refusal? : Bool → List Nat → Code → Option String

instance : Inhabited Backend := ⟨⟨fun _ _ _ => none⟩⟩

structure Module where
  name : String
  backend : Backend
  functions : List Function := []
  imports : List String := []
  exports : List (String × Nat) := []
  listing : List String := []
  /-- The last body that was begun has failed. -/
  unfinished : Bool := false
  deriving Inhabited

namespace Module

/-- The name in a line that heads a function; a carriage return at its end does not count. -/
def heading? (line : String) : Option String :=
  match line.toList with
  | ';' :: ' ' :: name =>
    some (String.ofList (if name.getLast? = some '\r' then name.dropLast else name))
  | _ => none

/-- As text, a module has a line `; name` at the head of each function. These are the names that such lines show,
so a line break ends a name. -/
def headings (listing : List String) : List String :=
  listing.flatMap fun name => (("; " ++ name).splitOn "\n").filterMap heading?

end Module

abbrev Build (α : Type) : Type := ExceptT Fault (StateM Module) α

namespace Build

def lift {α : Type} (result : Except Fault α) : Build α := fun m => (result, m)

/-- The declarations of one name are merged, also when the last of them is refused for its signature. -/
def declare (name : String) (params : List Param) (exported : Bool) : Build Nat := do
  let m ← get
  let signature := params.map Param.bits
  let id ←
    match m.functions.findIdx? (·.name = name) with
    | some id =>
      let old := m.functions.getD id default
      set { m with
        functions := m.functions.set id { old with definable := old.definable || exported } }
      if old.signature ≠ signature then throw (.codegen (.conflicting name))
      pure id
    | none =>
      set { m with functions := m.functions ++ [Function.mk name signature exported none] }
      pure m.functions.length
  modify fun m =>
    if exported then { m with exports := m.exports ++ [(name, id)] }
    else { m with imports := m.imports ++ [name] }
  return id

/-- The code is written, and listed, before it is known whether the function can take it and the backend accepts it. -/
def define (id : Nat) (body : Emit Unit) : Build Unit := do
  let m ← get
  match m.functions[id]? with
  | none => throw (.codegen (.undeclared id))
  | some function =>
    set { m with unfinished := true }
    let code ← lift body.code
    set { m with unfinished := false, listing := m.listing ++ [function.name] }
    if !function.definable then throw (.codegen (.imported function.name))
    if function.body.isSome then throw (.codegen (.redefined function.name))
    if let some text := m.backend.refusal? m.unfinished function.signature code then
      throw (.codegen (.other text))
    modify fun m => { m with functions := m.functions.set id { function with body := some code } }

end Build

end CircuitSim
