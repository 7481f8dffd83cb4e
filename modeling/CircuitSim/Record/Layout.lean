import CircuitSim.Fault

/-!
Where the members of a record lie. A layout is computed from the list of members and one of three rules;
host code and compiled code both place a member by its `Placement`.
-/
namespace CircuitSim

inductive Rules
  /-- Each member in its container, aligned to the container's size. -/
  | natural
  /-- Each member in the fewest bytes, without gaps. -/
  | packed
  /-- Each member right behind the last bit of the one before. -/
  | bitPacked
  deriving DecidableEq, Repr, Inhabited

/-- A run of bits relative to the start of a record. `storage` counts the bytes that it owns when it starts on
a byte, and `exclusive` says that no other member shares them. -/
structure Placement where
  offset : Nat
  width : Nat
  storage : Nat
  exclusive : Bool
  deriving DecidableEq, Repr, Inhabited

def Placement.bytes (start width : Nat) : Placement :=
  ⟨start * 8, width, Width.bytes width, true⟩

structure Member where
  name : String
  placement : Placement
  deriving DecidableEq, Repr, Inhabited

def Member.width (member : Member) : Nat := member.placement.width

def Member.offset (member : Member) : Nat := member.placement.offset

structure Layout where
  rules : Rules
  members : List Member
  size : Nat
  align : Nat
  deriving DecidableEq, Repr, Inhabited

namespace Layout

def roundUp (n unit : Nat) : Nat := (n + unit - 1) / unit * unit

/-- Size and alignment of a container in bytes. Past 128 bits it is a row of eight-byte words. -/
def container (width : Nat) : Nat × Nat :=
  if width ≤ Width.maxNative then (Width.containerBytes width, Width.containerBytes width)
  else ((width + 63) / 64 * 8, 8)

def start (rules : Rules) (free width : Nat) : Nat :=
  match rules with
  | .natural => roundUp (free / 8) (container width).2 * 8
  | .packed | .bitPacked => free

def stop (rules : Rules) (start width : Nat) : Nat :=
  match rules with
  | .natural => start + (container width).1 * 8
  | .packed => start + Width.bytes width * 8
  | .bitPacked => start + width

def place (rules : Rules) (free : Nat) (name : String) (width : Nat) : Member :=
  ⟨name, start rules free width, width, Width.bytes width, rules ≠ .bitPacked⟩

/-- The members that follow those named in `seen`, from the first free bit on, with the free bit at the end. -/
def placeAll (rules : Rules) : List String → Nat → List (String × Nat) → Except Fault (List Member × Nat)
  | _, free, [] => .ok ([], free)
  | seen, free, (name, width) :: rest =>
    if width = 0 then .error (.unsupportedWidth s!"record member `{name}`" 0)
    else if name ∈ seen then .error (.invalidCircuit (.duplicateMember name))
    else do
      let member := place rules free name width
      let (members, free) ← placeAll rules (name :: seen) (stop rules member.offset width) rest
      return (member :: members, free)

def alignment (rules : Rules) (members : List Member) : Nat :=
  match rules with
  | .natural => members.foldl (fun align member => max align (container member.width).2) 1
  | .packed | .bitPacked => 1

def ofMembers (rules : Rules) (members : List (String × Nat)) : Except Fault Layout := do
  let (placed, free) ← placeAll rules [] 0 members
  let align := alignment rules placed
  let size :=
    match rules with
    | .natural => roundUp (free / 8) align
    | .packed | .bitPacked => Width.bytes free
  return { rules, members := placed, size, align }

def position? (layout : Layout) (name : String) : Option Nat :=
  layout.members.findIdx? (·.name = name)

def names (layout : Layout) : List String := layout.members.map (·.name)

end Layout

end CircuitSim
