import CircuitSim.Code.Basic

/-!
Arithmetic as the machine does it: in the container of a value, wrapping around there, and cut to the value's
width where an operation can leave higher bits set. Operands hold no bits above their width, so the bitwise
operations, comparisons and right shifts need no cut.
-/
namespace CircuitSim.Word

def wrap (width n : Nat) : Nat := n % 2 ^ Width.containerBits width

/-- Clears the bits of the container above `width`: by a mask up to 64 bits, by a pair of shifts past them. -/
def truncate (width n : Nat) : Nat :=
  let bits := Width.containerBits width
  if bits ≤ width then n
  else if bits ≤ 64 then n &&& (2 ^ width - 1)
  else wrap width (n <<< (bits - width)) >>> (bits - width)

def const (width n : Nat) : Nat := n &&& Width.mask width

def binary (op : BinaryOp) (width a b : Nat) : Nat :=
  match op with
  | .add => truncate width (wrap width (a + b))
  | .sub => truncate width (wrap width (a + (2 ^ Width.containerBits width - wrap width b)))
  | .mul => truncate width (wrap width (a * b))
  | .and => a &&& b
  | .or => a ||| b
  | .xor => a ^^^ b

def not (width n : Nat) : Nat := truncate width (n ^^^ (2 ^ Width.containerBits width - 1))

def compare (op : CompareOp) (a b : Nat) : Nat :=
  match op with
  | .eq => if a = b then 1 else 0
  | .ne => if a = b then 0 else 1

/-- Shift amounts count modulo the container. -/
def shl (width n amount : Nat) : Nat :=
  truncate width (wrap width (n <<< (amount % Width.containerBits width)))

def lshr (width n amount : Nat) : Nat := n >>> (amount % Width.containerBits width)

def urem (width n divisor : Nat) : Nat := n % wrap width divisor

def resize (source target n : Nat) : Nat :=
  if target < source then truncate target (wrap target n) else wrap target n

end CircuitSim.Word
