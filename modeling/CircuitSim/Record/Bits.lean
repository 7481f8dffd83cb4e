import CircuitSim.Width

/-!
Byte buffers and the bits in them. Bit `i` of a buffer is bit `i % 8` of byte `i / 8`, so a run of bits read
from the low end is a little-endian number. `readBits` and `writeBits` copy runs that start and end anywhere;
runs of whole bytes take a shorter way to the same result.
-/
namespace CircuitSim

abbrev Bytes := Array UInt8

namespace Bytes

def zeros (n : Nat) : Bytes := Array.replicate n 0

def byte (data : Bytes) (i : Nat) : UInt8 := data.getD i 0

def bit (data : Bytes) (i : Nat) : Bool := (data.byte (i / 8)).toNat.testBit (i % 8)

def toNat (data : Bytes) : Nat := data.foldr (fun b n => b.toNat + 256 * n) 0

def ofNat : Nat → Nat → List UInt8
  | 0, _ => []
  | count + 1, n => UInt8.ofNat (n % 256) :: ofNat count (n / 256)

def ofWord (n : Nat) : Bytes := (ofNat 8 n).toArray

def ofNumber (n : Nat) : Bytes := (ofNat (Width.bytes (Width.bitLength n)) n).toArray

def setBit (data : Bytes) (i : Nat) (value : Bool) : Bytes :=
  data.modify (i / 8) fun b =>
    let flag : UInt8 := 1 <<< UInt8.ofNat (i % 8)
    if value then b ||| flag else b &&& ~~~flag

end Bytes

open Bytes

def readAligned (data : Bytes) (start count : Nat) : Bytes := data.extract start (start + count)

/-- Each byte joins the high part of one byte with the low part of the next; past the end there are zeros. -/
def readShifted (data : Bytes) (start shift count : Nat) : Bytes :=
  (Array.range count).map fun i =>
    (data.byte (start + i) >>> UInt8.ofNat shift) ||| (data.byte (start + i + 1) <<< UInt8.ofNat (8 - shift))

def trim (data : Bytes) (width : Nat) : Bytes :=
  if width % 8 = 0 then data
  else data.modify (width / 8) fun b => b &&& UInt8.ofNat (2 ^ (width % 8) - 1)

/-- `width` bits from `offset` on, as the fewest bytes. A run of whole bytes past the end has no answer. -/
def readBits (data : Bytes) (offset width : Nat) : Option Bytes :=
  let start := offset / 8
  let count := Width.bytes width
  if offset % 8 = 0 then
    if start + count ≤ data.size then some (trim (readAligned data start count) width) else none
  else some (trim (readShifted data start (offset % 8) count) width)

def writeAligned (data : Bytes) (start : Nat) (value : Bytes) : Nat → Bytes
  | 0 => data
  | count + 1 => (writeAligned data start value count).setIfInBounds (start + count) (value.byte count)

def writeShifted (data : Bytes) (offset : Nat) (value : Bytes) : Nat → Bytes
  | 0 => data
  | width + 1 => (writeShifted data offset value width).setBit (offset + width) (value.bit width)

/-- Writes the low `width` bits of `value` from `offset` on and leaves every other bit as it was; a short
`value` goes on with zeros. A run past the end has no answer. -/
def writeBits (data : Bytes) (offset width : Nat) (value : Bytes) : Option Bytes :=
  if width = 0 then some data
  else if data.size * 8 < offset + width then none
  else if offset % 8 = 0 ∧ width % 8 = 0 then some (writeAligned data (offset / 8) value (width / 8))
  else some (writeShifted data offset value width)

end CircuitSim
