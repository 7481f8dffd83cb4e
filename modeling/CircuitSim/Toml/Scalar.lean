import CircuitSim.Text.Decimal

/-!
TOML numbers, dates and times. Nobody here asks for their value, so a scalar is only accepted or refused: each
function answers what follows it. Whole numbers lie in 64 bits with a sign, and a float may not round to positive
infinity.
-/
namespace CircuitSim.Toml

open Decimal (isDigit ofDigits)

def isHexDigit (c : Char) : Bool := isDigit c || ('a' ≤ c && c ≤ 'f') || ('A' ≤ c && c ≤ 'F')

/-- Digits from here on, with single underscores between them, and what follows. -/
def digits (isDigit : Char → Bool) : List Char → List Char × List Char
  | '_' :: c :: rest =>
    if isDigit c then
      let (more, rest) := digits isDigit rest
      (c :: more, rest)
    else ([], '_' :: c :: rest)
  | c :: rest =>
    if isDigit c then
      let (more, rest) := digits isDigit rest
      (c :: more, rest)
    else ([], c :: rest)
  | [] => ([], [])

def row? (isDigit : Char → Bool) (cs : List Char) : Option (List Char × List Char) :=
  match cs with
  | c :: _ => if isDigit c then some (digits isDigit cs) else none
  | [] => none

def sign : List Char → Bool × List Char
  | '-' :: rest => (true, rest)
  | '+' :: rest => (false, rest)
  | rest => (false, rest)

/-- The digits of a decimal number: a leading zero stands alone. -/
def whole? (cs : List Char) : Option (List Char × List Char) :=
  match cs with
  | '0' :: rest => some (['0'], rest)
  | cs => row? isDigit cs

def based? (isDigit : Char → Bool) (base : Nat) (cs : List Char) : Option (List Char) := do
  let (row, rest) ← row? isDigit cs
  let digit (c : Char) : Nat :=
    if c ≤ '9' then c.toNat - '0'.toNat else if c ≤ 'F' then c.toNat - 'A'.toNat + 10 else c.toNat - 'a'.toNat + 10
  if row.foldl (fun n c => n * base + digit c) 0 < 2 ^ 63 then some rest else none

def integer? (cs : List Char) : Option (List Char) :=
  match cs with
  | '0' :: 'x' :: rest => based? isHexDigit 16 rest
  | '0' :: 'o' :: rest => based? (fun c => '0' ≤ c && c ≤ '7') 8 rest
  | '0' :: 'b' :: rest => based? (fun c => c = '0' || c = '1') 2 rest
  | cs => do
    let (negative, rest) := sign cs
    let (row, rest) ← whole? rest
    if ofDigits row < 2 ^ 63 || (negative && ofDigits row = 2 ^ 63) then some rest else none

def exponent? (cs : List Char) : Option (Int × List Char) := do
  let (negative, rest) := sign cs
  let (row, rest) ← row? isDigit rest
  return (if negative then -(ofDigits row : Int) else ofDigits row, rest)

def isExponent (c : Char) : Bool := c = 'e' || c = 'E'

def fraction? (cs : List Char) : Option (List Char) := do
  let (negative, rest) := sign cs
  let (row, rest) ← whole? rest
  let (places, rest, plain) ←
    match rest with
    | '.' :: rest => do
      let (places, rest) ← row? isDigit rest
      pure (places, rest, false)
    | rest => pure ([], rest, true)
  let (power, rest, plain) ←
    match rest with
    | c :: after =>
      if isExponent c then do
        let (power, rest) ← exponent? after
        pure (power, rest, false)
      else pure (0, rest, plain)
    | [] => pure (0, rest, plain)
  if plain then none
  else if negative || Decimal.inRange (row ++ places) (power - places.length) then some rest
  else none

def float? (cs : List Char) : Option (List Char) :=
  match fraction? cs with
  | some rest => some rest
  | none =>
    match (sign cs).2 with
    | 'i' :: 'n' :: 'f' :: rest => some rest
    | 'n' :: 'a' :: 'n' :: rest => some rest
    | _ => none

def pair? (least most : Nat) (cs : List Char) : Option (Nat × List Char) :=
  match cs with
  | a :: b :: rest =>
    let n := ofDigits [a, b]
    if isDigit a && isDigit b && least ≤ n && n ≤ most then some (n, rest) else none
  | _ => none

def char? (c : Char) (cs : List Char) : Option (List Char) :=
  match cs with
  | d :: rest => if c = d then some rest else none
  | [] => none

def isLeap (year : Nat) : Bool := year % 4 = 0 && (year % 100 ≠ 0 || year % 400 = 0)

def daysIn (year month : Nat) : Nat :=
  if month = 2 then (if isLeap year then 29 else 28)
  else if month = 4 || month = 6 || month = 9 || month = 11 then 30
  else 31

def date? (cs : List Char) : Option (List Char) := do
  let (century, rest) ← pair? 0 99 cs
  let (year, rest) ← pair? 0 99 rest
  let (month, rest) ← pair? 1 12 (← char? '-' rest)
  let (_, rest) ← pair? 1 (daysIn (century * 100 + year) month) (← char? '-' rest)
  return rest

def time? (cs : List Char) : Option (List Char) := do
  let (_, rest) ← pair? 0 23 cs
  let (_, rest) ← pair? 0 59 (← char? ':' rest)
  let (_, rest) ← pair? 0 60 (← char? ':' rest)
  match rest with
  | '.' :: after =>
    let (places, after) := Decimal.span after
    return if places.isEmpty then rest else after
  | rest => return rest

def afterOffset (cs : List Char) : List Char :=
  match cs with
  | 'Z' :: rest | 'z' :: rest => rest
  | c :: rest =>
    if c = '+' || c = '-' then
      (do
        let (_, rest) ← pair? 0 23 rest
        let (_, rest) ← pair? 0 59 (← char? ':' rest)
        return rest).getD cs
    else cs
  | [] => []

def moment? (cs : List Char) : Option (List Char) :=
  match date? cs with
  | none => time? cs
  | some rest =>
    match rest with
    | c :: after =>
      if c = 'T' || c = 't' || c = ' ' then
        match time? after with
        | some rest => some (afterOffset rest)
        | none => some rest
      else some rest
    | [] => some []

def scalar? (cs : List Char) : Option (List Char) :=
  match moment? cs with
  | some rest => some rest
  | none =>
    match float? cs with
    | some rest => some rest
    | none => integer? cs

end CircuitSim.Toml
