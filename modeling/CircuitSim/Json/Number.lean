import CircuitSim.Json.Quoted
import CircuitSim.Text.Decimal

/-!
JSON numbers. Readers here want whole numbers below `2 ^ 64` written without sign, point or exponent; any other
number only has to be written correctly and to lie in the range of a double.
-/
namespace CircuitSim.Json

inductive Number
  | whole (n : Nat)
  | other
  | outOfRange
  deriving DecidableEq, Repr, Inhabited

inductive Numeral
  | read (number : Number) (rest : List Char)
  | broken (stop : Break)
  deriving DecidableEq, Repr

open Decimal (isDigit ofDigits)

/-- The significand and the power of ten are rounded to doubles one by one, so the product, which has to stay
finite, may be a neighbour of the double that is nearest to the number. -/
def inRange (significand : Nat) (exponent : Int) : Bool :=
  significand = 0 || exponent ≤ 0 ||
    (exponent ≤ 308 && Double.nearest significand * Double.nearest (10 ^ exponent.toNat) < Double.ceiling)

/-- Digits are kept while they fit 64 bits. Of those that do not, the ones before the point still count as places,
and the ones behind it do not count at all. -/
def classify (negative plain : Bool) (digits places : List Char) (power : Int) : Number :=
  let (whole, beyond) := Decimal.takeBelow (2 ^ 64) 0 digits
  if plain && !negative && beyond.isEmpty then .whole whole
  else
    let (significand, ignored) := Decimal.takeBelow (2 ^ 64) whole places
    let kept := places.length - ignored.length
    if inRange significand (power + beyond.length - kept) then .other else .outOfRange

/-- Digits are missing: a reader that wants the number tells the end of the text from other characters. -/
def missingDigits (rest : List Char) : Numeral :=
  .broken ⟨if rest.isEmpty then .truncated else .malformed, .malformed⟩

def exponentPart (negative plain : Bool) (digits places : List Char) (cs : List Char) : Numeral :=
  match cs with
  | c :: rest =>
    if c = 'e' || c = 'E' then
      let (minus, rest) : Bool × List Char :=
        match rest with
        | '+' :: rest => (false, rest)
        | '-' :: rest => (true, rest)
        | rest => (false, rest)
      let (power, rest) := Decimal.span rest
      if power.isEmpty then missingDigits rest
      else
        let power : Int := if minus then -(ofDigits power : Int) else ofDigits power
        .read (classify negative false digits places power) rest
    else .read (classify negative plain digits places 0) cs
  | [] => .read (classify negative plain digits places 0) []

def fractionPart (negative : Bool) (digits : List Char) (cs : List Char) : Numeral :=
  match cs with
  | '.' :: rest =>
    let (fraction, rest) := Decimal.span rest
    if fraction.isEmpty then missingDigits rest
    else exponentPart negative false digits fraction rest
  | rest => exponentPart negative true digits [] rest

/-- A number after its sign. A leading zero stands alone. -/
def unsigned (negative : Bool) (cs : List Char) : Numeral :=
  match cs with
  | '0' :: c :: rest => if isDigit c then .broken (.both .malformed) else fractionPart negative ['0'] (c :: rest)
  | cs =>
    let (digits, rest) := Decimal.span cs
    if digits.isEmpty then missingDigits rest else fractionPart negative digits rest

def numeral (cs : List Char) : Numeral :=
  match cs with
  | '-' :: rest => unsigned true rest
  | rest => unsigned false rest

end CircuitSim.Json
