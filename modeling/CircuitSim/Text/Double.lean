import CircuitSim.Width

/-!
Natural numbers among the doubles: a double keeps 53 bits, and a number between two doubles goes to the nearer
one, from the middle to the one whose last bit is clear.
-/
namespace CircuitSim.Double

def precision : Nat := 53

/-- The least number that rounds past the largest double. -/
def ceiling : Nat := 2 ^ 1024 - 2 ^ 970

def nearest (n : Nat) : Nat :=
  let unit := 2 ^ (Width.bitLength n - precision)
  let below := n / unit
  let rest := 2 * (n % unit)
  if unit < rest ∨ (unit = rest ∧ below % 2 = 1) then (below + 1) * unit else below * unit

end CircuitSim.Double
