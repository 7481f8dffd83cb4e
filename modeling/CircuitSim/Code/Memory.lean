import CircuitSim.Code.Word
import CircuitSim.Fault
import CircuitSim.Record.Bits

/-!
Memory is a list of blocks of bytes that no access can leave. An address knows its block and the position in it,
and no distance takes it to another block; as a number it is the position behind the base of the block, and any
number that lies in a block is an address of it. The machine moves 1, 2, 4, 8 or 16 bytes at a time, low byte first; any other number of bytes is moved as
a row of such pieces.
-/
namespace CircuitSim

inductive Value
  | number (n : Nat)
  | address (block : Nat) (position : Int)
  deriving DecidableEq, Repr, Inhabited

abbrev Memory := Array Bytes

namespace Value

/-- The distance from the base of a block to the base of the next. -/
def spacing : Nat := 2 ^ 32

/-- The number of the first byte of a block; nothing lies at zero. -/
def base (block : Nat) : Nat := (block + 1) * spacing

def bits : Value → Nat
  | number n => n
  | address block position => ((base block + position) % 2 ^ 64).toNat

/-- The block around a number, and the position in it. -/
def split? (n : Nat) : Option (Nat × Nat) :=
  if spacing ≤ n then some (n / spacing - 1, n % spacing) else none

def isSet (value : Value) : Bool := value.bits ≠ 0

/-- `distance` bytes further on, in 64-bit arithmetic. -/
def move (value : Value) (distance : Int) : Value :=
  match value with
  | number n => number ((n + distance) % 2 ^ 64).toNat
  | address block position => address block (position + distance)

def signed (n : Nat) : Int := (n : Int).bmod (2 ^ 64)

end Value

/-- The place and size of each piece of an access of `bytes` bytes. -/
def pieces (bytes : Nat) : List (Nat × Nat) :=
  if bytes = 16 then [(0, 16)] else go bytes 0 bytes
where
  go : Nat → Nat → Nat → List (Nat × Nat)
    | 0, _, _ => []
    | fuel + 1, start, left =>
      if left = 0 then []
      else
        let size := if 8 ≤ left then 8 else if 4 ≤ left then 4 else if 2 ≤ left then 2 else 1
        (start, size) :: go fuel (start + size) (left - size)

namespace Memory

def word (data : Bytes) : Nat → Nat → Nat
  | _, 0 => 0
  | start, count + 1 => (data.byte start).toNat + 256 * word data (start + 1) count

def setWord (data : Bytes) : Nat → Nat → Nat → Bytes
  | _, 0, _ => data
  | start, count + 1, n => setWord (data.setIfInBounds start (UInt8.ofNat (n % 256))) (start + 1) count (n / 256)

/-- The block and byte that an access of `bytes` bytes starts at, if all of it lies in the block. -/
def within? (memory : Memory) (block : Nat) (start : Int) (bytes : Nat) : Option (Nat × Nat) :=
  if 0 ≤ start ∧ start.toNat + bytes ≤ (memory.getD block #[]).size then some (block, start.toNat) else none

def atNumber? (memory : Memory) (n bytes : Nat) : Option (Nat × Nat) :=
  (Value.split? n).bind fun (block, position) => memory.within? block position bytes

/-- Positions that lie `2 ^ 64` bytes apart are the same. -/
def locate (memory : Memory) (ptr : Value) (offset : Int) (bytes : Nat) : Except Trap (Nat × Nat) :=
  let found :=
    match ptr with
    | .number n => memory.atNumber? ((n + offset) % 2 ^ 64).toNat bytes
    | .address block position =>
      (memory.within? block (position + offset) bytes).or
        (memory.within? block ((position + offset).bmod (2 ^ 64)) bytes)
  match found with
  | some place => .ok place
  | none => .error .outside

/-- The pieces are shifted into place and joined. Without pieces, memory is not looked at. -/
def load (memory : Memory) (ptr : Value) (offset : Int) (bytes : Nat) : Except Trap Nat :=
  if bytes = 0 then .ok 0
  else do
    let (block, start) ← memory.locate ptr offset bytes
    let data := memory.getD block #[]
    return (pieces bytes).foldl
      (fun n (place, size) => n ||| Word.shl (bytes * 8) (word data (start + place) size) (place * 8)) 0

/-- The pieces are shifted down and cut. -/
def store (memory : Memory) (ptr : Value) (offset : Int) (bytes n : Nat) : Except Trap Memory :=
  if bytes = 0 then .ok memory
  else do
    let (block, start) ← memory.locate ptr offset bytes
    return memory.modify block fun data =>
      (pieces bytes).foldl
        (fun data (place, size) => setWord data (start + place) size (Word.lshr (bytes * 8) n (place * 8))) data

/-- A new block that holds `data`, and its address. -/
def allocate (memory : Memory) (data : Bytes) : Memory × Value := (memory.push data, .address memory.size 0)

end Memory

end CircuitSim
