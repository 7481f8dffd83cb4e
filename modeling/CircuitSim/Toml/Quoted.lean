/-!
TOML strings behind their opening quotes: between double quotes with escapes, between single quotes as they are,
and each of the two over several lines between triple quotes. Control characters other than the tab stand in none
of them.
-/
namespace CircuitSim.Toml

def isBlank (c : Char) : Bool := c = ' ' || c = '\t'

/-- Not a control character; the tab counts as visible. -/
def isVisible (c : Char) : Bool := c = '\t' || (' ' ≤ c && c ≠ '\x7f')

def newline? : List Char → Option (List Char)
  | '\n' :: rest => some rest
  | '\r' :: '\n' :: rest => some rest
  | _ => none

def hexDigit? (c : Char) : Option Nat :=
  if '0' ≤ c ∧ c ≤ '9' then some (c.toNat - '0'.toNat)
  else if 'a' ≤ c ∧ c ≤ 'f' then some (c.toNat - 'a'.toNat + 10)
  else if 'A' ≤ c ∧ c ≤ 'F' then some (c.toNat - 'A'.toNat + 10)
  else none

/-- The character with a hexadecimal number; surrogates are not characters. -/
def ofHex? (digits : List Char) : Option Char := do
  let n ← digits.foldlM (fun n c => (hexDigit? c).map (n * 16 + ·)) 0
  if n.isValidChar then some (Char.ofNat n) else none

def escaped? (c : Char) : Option Char :=
  match c with
  | 'b' => some '\x08'
  | 't' => some '\t'
  | 'n' => some '\n'
  | 'f' => some '\x0c'
  | 'r' => some '\r'
  | '"' => some '"'
  | '\\' => some '\\'
  | _ => none

def basic (text : List Char) : List Char → Option (String × List Char)
  | '"' :: rest => some (String.ofList text.reverse, rest)
  | '\\' :: 'u' :: a :: b :: c :: d :: rest => do basic ((← ofHex? [a, b, c, d]) :: text) rest
  | '\\' :: 'U' :: a :: b :: c :: d :: e :: f :: g :: h :: rest => do
    basic ((← ofHex? [a, b, c, d, e, f, g, h]) :: text) rest
  | '\\' :: c :: rest => do basic ((← escaped? c) :: text) rest
  | c :: rest => if isVisible c && c ≠ '\\' then basic (c :: text) rest else none
  | [] => none

def literal (text : List Char) : List Char → Option (String × List Char)
  | '\'' :: rest => some (String.ofList text.reverse, rest)
  | c :: rest => if isVisible c then literal (c :: text) rest else none
  | [] => none

/-- Behind the three closing quotes: up to two quotes before them belong to the text. -/
def closeLines (quote : Char) (text : List Char) : List Char → String × List Char
  | a :: b :: rest =>
    if a = quote && b = quote then (String.ofList (quote :: quote :: text).reverse, rest)
    else if a = quote then (String.ofList (quote :: text).reverse, b :: rest)
    else (String.ofList text.reverse, a :: b :: rest)
  | [a] => if a = quote then (String.ofList (quote :: text).reverse, []) else (String.ofList text.reverse, [a])
  | [] => (String.ofList text.reverse, [])

def endsLine (cs : List Char) : Bool := (newline? (cs.dropWhile isBlank)).isSome

/-- A string over several lines in double quotes. A backslash at the end of a line swallows the blanks and line
breaks up to the next other character, which `joining` says. -/
def basicLines (joining : Bool) (text : List Char) : List Char → Option (String × List Char)
  | '"' :: '"' :: '"' :: rest => some (closeLines '"' text rest)
  | '\\' :: 'u' :: a :: b :: c :: d :: rest => do basicLines false ((← ofHex? [a, b, c, d]) :: text) rest
  | '\\' :: 'U' :: a :: b :: c :: d :: e :: f :: g :: h :: rest => do
    basicLines false ((← ofHex? [a, b, c, d, e, f, g, h]) :: text) rest
  | '\\' :: c :: rest =>
    match escaped? c with
    | some c => basicLines false (c :: text) rest
    | none => if endsLine (c :: rest) then basicLines true text (c :: rest) else none
  | '\r' :: '\n' :: rest => basicLines joining (if joining then text else '\n' :: text) rest
  | c :: rest =>
    if c = '\n' || isBlank c then basicLines joining (if joining then text else c :: text) rest
    else if isVisible c && c ≠ '\\' then basicLines false (c :: text) rest
    else none
  | [] => none

def literalLines (text : List Char) : List Char → Option (String × List Char)
  | '\'' :: '\'' :: '\'' :: rest => some (closeLines '\'' text rest)
  | '\r' :: '\n' :: rest => literalLines ('\n' :: text) rest
  | c :: rest => if c = '\n' || isVisible c then literalLines (c :: text) rest else none
  | [] => none

/-- A line break right behind the opening quotes does not count. -/
def dropNewline (cs : List Char) : List Char := (newline? cs).getD cs

def quoted (cs : List Char) : Option (String × List Char) :=
  match cs with
  | '"' :: '"' :: '"' :: rest => basicLines false [] (dropNewline rest)
  | '\'' :: '\'' :: '\'' :: rest => literalLines [] (dropNewline rest)
  | '"' :: rest => basic [] rest
  | '\'' :: rest => literal [] rest
  | _ => none

end CircuitSim.Toml
