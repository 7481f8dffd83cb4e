import CircuitSim.Circuit.Basic
import CircuitSim.Primitive.Basic

/-!
Libraries of primitive kinds. A library maps the name of a kind to the constructor that makes a primitive of
generator arguments; a kind added later stands in for an earlier one of the same name.
-/
namespace CircuitSim

/-- The generator arguments of one instance, with what its faults have to name. -/
structure Generator where
  kind : String
  place : String
  args : Args
  deriving DecidableEq, Repr

abbrev Constructor := Generator → Except Fault Primitive

namespace Generator

def require (g : Generator) (name : String) : Except Fault Nat :=
  match g.args.get? name with
  | some value => .ok value
  | none => .error (.missingArgument g.kind g.place name)

def refuse {α : Type} (g : Generator) (name : String) (why : ArgumentFault) : Except Fault α :=
  .error (.invalidArgument g.kind g.place name why)

def width (g : Generator) : Except Fault Nat := do
  let width ← g.require "width"
  if 2 ^ 32 ≤ width then g.refuse "width" .tooLarge
  else
    checkWidth s!"{g.kind} `{g.place}`" width
    return width

end Generator

namespace Constructor

def const : Constructor := fun g => do
  let width ← g.width
  let value ← g.require "value"
  if Width.mask width < value then g.refuse "value" (.exceeds width)
  else return .const width value

/-- The bytes of a memory stay below `2 ^ 31`. -/
def mem : Constructor := fun g => do
  let width ← g.width
  let depth ← g.require "depth"
  if depth = 0 then g.refuse "depth" .noWords
  else
    match Width.packedBytes? width depth with
    | some bytes => if bytes < 2 ^ 31 then return .mem width depth else g.refuse "depth" .memoryTooLarge
    | none => g.refuse "depth" .memoryTooLarge

def sized (primitive : Nat → Primitive) : Constructor := fun g => g.width.map primitive

end Constructor

structure Library where
  kinds : List (String × Constructor)

namespace Library

def basic : List (String × Constructor) := [
  ("register", .sized .register),
  ("const", .const),
  ("add", .sized (.binary .add)),
  ("sub", .sized (.binary .sub)),
  ("mul", .sized (.binary .mul)),
  ("and", .sized (.binary .and)),
  ("or", .sized (.binary .or)),
  ("xor", .sized (.binary .xor)),
  ("not", .sized .not),
  ("eq", .sized (.compare .eq)),
  ("neq", .sized (.compare .ne)),
  ("mux", .sized .mux),
  ("mem", .mem)]

/-- The basic kinds, each under its own name and in the name space `coreir`, where a register is a `reg`. -/
def builtin : Library :=
  ⟨basic ++ basic.map fun (name, make) => ("coreir." ++ (if name = "register" then "reg" else name), make)⟩

def extend (library : Library) (kind : String) (make : Constructor) : Library := ⟨(kind, make) :: library.kinds⟩

def find? (library : Library) (kind : String) : Option Constructor := library.kinds.lookup kind

def contains (library : Library) (kind : String) : Bool := (library.find? kind).isSome

def names (library : Library) : List String :=
  (library.kinds.map (·.1)).eraseDups.mergeSort

def build (library : Library) (kind : String) (args : Args) (place : String) : Except Fault Primitive :=
  match library.find? kind with
  | some make => make ⟨kind, place, args⟩
  | none => .error (.unknownKind kind place)

end Library

end CircuitSim
