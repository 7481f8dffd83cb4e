import CircuitSim.Record.Bits
import CircuitSim.Record.Layout

/-!
A record: a layout and the bytes laid out by it. Members are numbers reduced to their width; a member is
addressed by its position or by its name.
-/
namespace CircuitSim

inductive Key
  | position (index : Nat)
  | name (name : String)
  deriving DecidableEq, Repr

def Key.text : Key → String
  | .position index => s!"#{index}"
  | .name text => text

structure Record where
  layout : Layout
  data : Bytes
  deriving DecidableEq, Repr, Inhabited

namespace Record

def ofLayout (layout : Layout) : Record := ⟨layout, Bytes.zeros layout.size⟩

def ofMembers (rules : Rules) (members : List (String × Nat)) : Except Fault Record :=
  (Layout.ofMembers rules members).map ofLayout

def clear (record : Record) : Record :=
  { record with data := Bytes.zeros record.data.size }

def position? (record : Record) : Key → Option Nat
  | .position index => if index < record.layout.members.length then some index else none
  | .name name => record.layout.position? name

def member? (record : Record) (key : Key) : Option Member :=
  (record.position? key).bind fun index => record.layout.members[index]?

def member (record : Record) (key : Key) : Except Fault Member :=
  match record.member? key with
  | some member => .ok member
  | none => .error (.unknownMember key.text)

def read (record : Record) (placement : Placement) : Bytes :=
  (readBits record.data placement.offset placement.width).getD #[]

def write (record : Record) (placement : Placement) (value : Bytes) : Record :=
  { record with
    data := (writeBits record.data placement.offset placement.width value).getD record.data }

/-- The little-endian `value`, cut or continued with zeros to the member's width. -/
def setBytes (record : Record) (key : Key) (value : Bytes) : Except Fault Record := do
  return record.write (← record.member key).placement value

def set (record : Record) (key : Key) (value : Nat) : Except Fault Record :=
  record.setBytes key (Bytes.ofNumber value)

/-- As `set`, for a value below `2 ^ 64` kept in eight bytes. -/
def setWord (record : Record) (key : Key) (value : Nat) : Except Fault Record :=
  record.setBytes key (Bytes.ofWord value)

def value (record : Record) (member : Member) : Nat := (record.read member.placement).toNat

def get (record : Record) (key : Key) : Except Fault Nat := do
  return record.value (← record.member key)

def getWord (record : Record) (key : Key) : Except Fault Nat := do
  let placement := (← record.member key).placement
  return (record.read { placement with width := min placement.width Width.half }).toNat

def values (record : Record) : List (String × Nat) :=
  record.layout.members.map fun member => (member.name, record.value member)

def text (record : Record) : String :=
  "\n".intercalate (record.layout.members.map fun member =>
    s!"{member.name}[{member.width}] @{member.offset} = {record.value member}")

end Record

end CircuitSim
