/-!
Bit widths and the power-of-two containers that hold them. A `w`-bit value lives in the smallest of
1, 2, 4, 8 and 16 bytes that fits, so no single value is wider than 128 bits.
-/
namespace CircuitSim.Width

-- Powers of numbers are those of the core library, also where an algebra library offers its own.
attribute [instance (2000), default_instance (20000)] instPowNat

def maxNative : Nat := 128

def half : Nat := 64

/-- The largest value of `width` bits; widths past 128 share the mask of 128. -/
def mask (width : Nat) : Nat :=
  if maxNative ≤ width then 2 ^ maxNative - 1 else 2 ^ width - 1

def containerBytes (width : Nat) : Nat :=
  if width ≤ 8 then 1
  else if width ≤ 16 then 2
  else if width ≤ 32 then 4
  else if width ≤ 64 then 8
  else 16

def containerBits (width : Nat) : Nat := containerBytes width * 8

def bytes (bits : Nat) : Nat := (bits + 7) / 8

/-- Widths are 32-bit numbers, and so are their sums. -/
def sum (a b : Nat) : Nat := (a + b) % 2 ^ 32

/-- The number of bits of `n` without leading zeros; zero has none. -/
def bitLength (n : Nat) : Nat := if n = 0 then 0 else n.log2 + 1

/-- The address bits of a memory of `depth` words: enough for `depth - 1`, and at least one. -/
def address (depth : Nat) : Nat :=
  if depth ≤ 2 then 1 else bitLength (depth - 1)

/-- The bytes of `depth` words of `width` bits laid end to end; a bit count past 64 bits has no answer. -/
def packedBytes? (width depth : Nat) : Option Nat :=
  if width * depth < 2 ^ 64 then some (bytes (width * depth)) else none

theorem sum_eq {a b : Nat} (h : a + b < 2 ^ 32) : sum a b = a + b := Nat.mod_eq_of_lt h

theorem sum_le (a b : Nat) : sum a b ≤ a + b := Nat.mod_le _ _

theorem containerBytes_pos (width : Nat) : 0 < containerBytes width := by
  unfold containerBytes
  repeat' split
  all_goals decide

theorem le_containerBits {width : Nat} (h : width ≤ maxNative) : width ≤ containerBits width := by
  unfold maxNative at h
  unfold containerBits containerBytes
  repeat' split
  all_goals omega

end CircuitSim.Width
