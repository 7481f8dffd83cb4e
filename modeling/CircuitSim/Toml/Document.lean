import CircuitSim.Toml.Basic
import CircuitSim.Toml.Quoted
import CircuitSim.Toml.Scalar

/-!
Reading a TOML document: keys, values, and the lines of a document. A document is read into its lines first;
`Toml.ofLines` then decides which of them go together.
-/
namespace CircuitSim.Toml

/-- Keys have fewer parts, and containers nest less deep, than this. -/
def limit : Nat := 80

def skipBlank (cs : List Char) : List Char := cs.dropWhile isBlank

def isBare (c : Char) : Bool :=
  Decimal.isDigit c || ('a' ≤ c && c ≤ 'z') || ('A' ≤ c && c ≤ 'Z') || c = '_' || c = '-'

def part? (cs : List Char) : Option (String × List Char) :=
  match cs with
  | '"' :: rest => basic [] rest
  | '\'' :: rest => literal [] rest
  | cs =>
    let name := cs.takeWhile isBare
    if name.isEmpty then none else some (String.ofList name, cs.dropWhile isBare)

/-- At most `count` parts of a key, with dots between them and blanks around each: all but the last part, the last
part, and what follows. -/
def key? : Nat → List Char → Option (List String × String × List Char)
  | 0, _ => none
  | count + 1, cs => do
    let (name, rest) ← part? (skipBlank cs)
    match skipBlank rest with
    | '.' :: rest => do
      let (path, key, rest) ← key? count rest
      return (name :: path, key, rest)
    | rest => return ([], name, rest)

def key (cs : List Char) : Option (List String × String × List Char) := key? (limit - 1) cs

def skipComment (cs : List Char) : List Char :=
  match cs with
  | '#' :: rest => rest.dropWhile isVisible
  | cs => cs

/-- What follows blanks, comments and line breaks; a comment goes to the end of its line. -/
def skipLines : Nat → List Char → Option (List Char)
  | 0, cs => some cs
  | count + 1, cs =>
    let rest := skipBlank cs
    match newline? (skipComment rest) with
    | some rest => skipLines count rest
    | none => if (char? '#' rest).isSome then none else some rest

def skipFree (cs : List Char) : Option (List Char) := skipLines (cs.length + 1) cs

def word? (word cs : List Char) : Option (List Char) :=
  if word.isPrefixOf cs then some (cs.drop word.length) else none

def simple? (cs : List Char) : Option (Toml × List Char) :=
  match cs with
  | '"' :: _ | '\'' :: _ => (quoted cs).map fun (content, rest) => (.text content, rest)
  | 't' :: _ => (word? ['t', 'r', 'u', 'e'] cs).map fun rest => (.bool true, rest)
  | 'f' :: _ => (word? ['f', 'a', 'l', 's', 'e'] cs).map fun rest => (.bool false, rest)
  | cs => (scalar? cs).map fun rest => (.scalar, rest)

mutual

/-- A value inside `depth` containers. A step of the budget is used up by each value, item and pair, so twice the
length of the text is enough. -/
def value? : Nat → Nat → List Char → Option (Toml × List Char)
  | 0, _, _ => none
  | budget + 1, depth, cs =>
    match cs with
    | '[' :: rest =>
      if limit ≤ depth + 1 then none
      else (items? budget (depth + 1) rest).map fun (items, rest) => (.array items, rest)
    | '\x7b' :: rest =>
      if limit ≤ depth + 1 then none
      else
        match skipBlank rest with
        | '\x7d' :: rest => some (.table .braces [], rest)
        | _ => do
          let (pairs, rest) ← pairs? budget (depth + 1) rest
          return (← ofPairs pairs, rest)
    | cs => simple? cs

def items? : Nat → Nat → List Char → Option (List Toml × List Char)
  | 0, _, _ => none
  | budget + 1, depth, cs => do
    match ← skipFree cs with
    | ']' :: rest => return ([], rest)
    | rest => do
      let (item, rest) ← value? budget depth rest
      match ← skipFree rest with
      | ']' :: rest => return ([item], rest)
      | ',' :: rest => do
        let (items, rest) ← items? budget depth rest
        return (item :: items, rest)
      | _ => none

def pairs? : Nat → Nat → List Char → Option (List (List String × String × Toml) × List Char)
  | 0, _, _ => none
  | budget + 1, depth, cs => do
    let (path, key, rest) ← key cs
    let (value, rest) ← value? budget depth (skipBlank (← char? '=' rest))
    match skipBlank rest with
    | '\x7d' :: rest => return ([(path, key, value)], rest)
    | ',' :: rest => do
      let (pairs, rest) ← pairs? budget depth rest
      return ((path, key, value) :: pairs, rest)
    | _ => none

end

def value (cs : List Char) : Option (Toml × List Char) := value? (2 * cs.length + 2) 0 cs

def endLine? (cs : List Char) : Option (List Char) :=
  match skipComment (skipBlank cs) with
  | [] => some []
  | rest => newline? rest

def line? (cs : List Char) : Option (Line × List Char) :=
  match cs with
  | '[' :: '[' :: rest => do
    let (path, name, rest) ← key rest
    let rest ← endLine? (← char? ']' (← char? ']' rest))
    return (.element path name, rest)
  | '[' :: rest => do
    let (path, name, rest) ← key rest
    let rest ← endLine? (← char? ']' rest)
    return (.header path name, rest)
  | cs => do
    let (path, name, rest) ← key cs
    let (value, rest) ← value (skipBlank (← char? '=' rest))
    return (.entry path name value, ← endLine? rest)

/-- The lines that say something; each line takes a character, so the length of the text bounds their count. -/
def lines? : Nat → List Char → Option (List Line)
  | 0, _ => none
  | budget + 1, cs =>
    let rest := skipBlank cs
    match rest with
    | [] => some []
    | '#' :: _ | '\n' :: _ | '\r' :: _ => do lines? budget (← endLine? rest)
    | _ => do
      let (line, rest) ← line? rest
      return line :: (← lines? budget rest)

/-- A byte order mark at the start does not count. -/
def dropMark (cs : List Char) : List Char :=
  match cs with
  | '\uFEFF' :: rest => rest
  | cs => cs

def ofText (text : String) : Option Entries := do
  let cs := dropMark text.toList
  ofLines (← lines? (cs.length + 1) cs)

end CircuitSim.Toml
