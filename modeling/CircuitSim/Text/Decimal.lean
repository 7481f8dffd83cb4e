import CircuitSim.Text.Double

/-!
Decimal digits in text, and whether a decimal number lies in the range of a double.
-/
namespace CircuitSim.Decimal

def isDigit (c : Char) : Bool := '0' ≤ c && c ≤ '9'

def digit (c : Char) : Nat := c.toNat - '0'.toNat

def ofDigits (digits : List Char) : Nat := digits.foldl (fun n c => n * 10 + digit c) 0

def span (cs : List Char) : List Char × List Char := cs.span isDigit

/-- Continues `n` by digits as long as it stays below `bound`; also the digits that are left over. -/
def takeBelow (bound n : Nat) : List Char → Nat × List Char
  | [] => (n, [])
  | c :: rest => if n * 10 + digit c < bound then takeBelow bound (n * 10 + digit c) rest else (n, c :: rest)

/-- `digits * 10 ^ exponent` rounds to a finite double. Far from the limit the count of digits tells. -/
def inRange (digits : List Char) (exponent : Int) : Bool :=
  let digits := digits.dropWhile (· = '0')
  let magnitude := digits.length + exponent
  if digits.isEmpty || magnitude < 300 then true
  else if 320 < magnitude then false
  else ofDigits digits * 10 ^ exponent.toNat < Double.ceiling * 10 ^ (-exponent).toNat

end CircuitSim.Decimal
