import CircuitSim.Fault

/-!
The characters of a JSON string behind its opening quote. Escapes of the form `\u` are UTF-16 units, and a
character past the first plane takes a pair of them. A string with an unpaired half has no text, but its end is
still found, since a reader that does not want the text passes over it.
-/
namespace CircuitSim.Json

/-- Where reading stops, for a reader that wants the value and for one that passes over it. -/
structure Break where
  read : ReadFault
  skip : ReadFault
  deriving DecidableEq, Repr, Inhabited

def Break.both (fault : ReadFault) : Break := ⟨fault, fault⟩

inductive Quoted
  /-- The text, if it has one, and what follows the closing quote. -/
  | closed (text : Option String) (rest : List Char)
  | broken (stop : Break)
  deriving DecidableEq, Repr

def hexDigit? (c : Char) : Option Nat :=
  if '0' ≤ c ∧ c ≤ '9' then some (c.toNat - '0'.toNat)
  else if 'a' ≤ c ∧ c ≤ 'f' then some (c.toNat - 'a'.toNat + 10)
  else if 'A' ≤ c ∧ c ≤ 'F' then some (c.toNat - 'A'.toNat + 10)
  else none

def hexUnit? (a b c d : Char) : Option Nat := do
  let a ← hexDigit? a
  let b ← hexDigit? b
  let c ← hexDigit? c
  let d ← hexDigit? d
  return ((a * 16 + b) * 16 + c) * 16 + d

def escaped? (c : Char) : Option Char :=
  match c with
  | '"' => some '"'
  | '\\' => some '\\'
  | '/' => some '/'
  | 'b' => some '\x08'
  | 'f' => some '\x0c'
  | 'n' => some '\n'
  | 'r' => some '\r'
  | 't' => some '\t'
  | _ => none

def isHigh (unit : Nat) : Bool := 0xD800 ≤ unit && unit < 0xDC00

def isLow (unit : Nat) : Bool := 0xDC00 ≤ unit && unit < 0xE000

def pair (high low : Nat) : Char := Char.ofNat (0x10000 + (high - 0xD800) * 0x400 + (low - 0xDC00))

/-- The text so far, backwards; a first half that waits for its second; whether all halves were paired. -/
structure Progress where
  text : List Char
  high : Option Nat
  sound : Bool
  deriving DecidableEq, Repr

namespace Progress

def start : Progress := ⟨[], none, true⟩

def char (p : Progress) (c : Char) : Progress := ⟨c :: p.text, none, p.sound && p.high.isNone⟩

def unit (p : Progress) (n : Nat) : Progress :=
  match p.high with
  | some high => if isLow n then ⟨pair high n :: p.text, none, p.sound⟩ else { p with high := none, sound := false }
  | none =>
    if isHigh n then { p with high := some n }
    else if isLow n then { p with sound := false }
    else p.char (Char.ofNat n)

def result (p : Progress) : Option String :=
  if p.sound && p.high.isNone then some (String.ofList p.text.reverse) else none

/-- A reader of the text has already stopped at an unpaired half. -/
def stop (p : Progress) (fault : ReadFault) : Quoted :=
  .broken ⟨if p.sound then fault else .malformed, fault⟩

end Progress

-- A sum of numbers starts from the core library's zero, also where an algebra library offers its own.
attribute [local instance (2000)] Zero.ofOfNat0 in
/-- Why fewer than four hexadecimal digits follow: the text is at its end, or something else stands there. -/
def shortEscape (rest : List Char) : ReadFault :=
  if (rest.map Char.utf8Size).sum < 4 then .truncated else .malformed

def quoted : Progress → List Char → Quoted
  | p, [] => p.stop .truncated
  | p, '"' :: rest => .closed p.result rest
  | p, '\\' :: 'u' :: a :: b :: c :: d :: rest =>
    match hexUnit? a b c d with
    | some n => quoted (p.unit n) rest
    | none => p.stop .malformed
  | p, '\\' :: 'u' :: rest => p.stop (shortEscape rest)
  | p, '\\' :: c :: rest =>
    match escaped? c with
    | some c => quoted (p.char c) rest
    | none => p.stop .malformed
  | p, ['\\'] => p.stop .truncated
  | p, c :: rest => if c < ' ' then p.stop .malformed else quoted (p.char c) rest

end CircuitSim.Json
