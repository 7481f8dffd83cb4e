import CircuitSim.Json.Number

/-!
JSON texts as trees. A text that breaks off or goes wrong still has a tree, of all that stands before: the tree
says at its right edge where and why reading stops. Whoever walks the tree in order therefore meets faults of
notation and faults of meaning in the order of the text.
-/
namespace CircuitSim

inductive Json
  | null
  | bool (value : Bool)
  | number (value : Json.Number)
  /-- A string, without text if it holds half a character. -/
  | string (text : Option String)
  /-- The items, and why there is no closing bracket behind them. -/
  | array (items : List Json) (stop : Option Json.Break)
  | object (entries : List (Option String × Json)) (stop : Option Json.Break)
  | broken (stop : Json.Break)
  deriving Repr, Inhabited

namespace Json

def isBlank (c : Char) : Bool := c = ' ' || c = '\n' || c = '\t' || c = '\r'

def skipBlank (cs : List Char) : List Char := cs.dropWhile isBlank

/-- The rest of a word that stands for `value`. -/
def word (value : Json) : List Char → List Char → Json × Option (List Char)
  | [], rest => (value, some rest)
  | _ :: _, [] => (.broken (.both .truncated), none)
  | c :: letters, d :: rest =>
    if c = d then word value letters rest else (.broken (.both .malformed), none)

/-- What is missing at the place of a separator or of a closing bracket. -/
def missing (rest : List Char) : Break := .both (if rest.isEmpty then .truncated else .malformed)

mutual

/-- A value, and what follows it unless reading stops inside. A step of the depth is used up by each value,
item and entry, so twice the length of the text is enough. -/
def value : Nat → List Char → Json × Option (List Char)
  | 0, _ => (.broken (.both .truncated), none)
  | depth + 1, cs =>
    match skipBlank cs with
    | [] => (.broken (.both .truncated), none)
    | 'n' :: rest => word .null ['u', 'l', 'l'] rest
    | 't' :: rest => word (.bool true) ['r', 'u', 'e'] rest
    | 'f' :: rest => word (.bool false) ['a', 'l', 's', 'e'] rest
    | '"' :: rest =>
      match quoted .start rest with
      | .closed text rest => (.string text, some rest)
      | .broken stop => (.broken stop, none)
    | '[' :: rest =>
      match skipBlank rest with
      | ']' :: rest => (.array [] none, some rest)
      | rest =>
        let (items, stop, rest) := items depth rest
        (.array items stop, rest)
    | '\x7b' :: rest =>
      match skipBlank rest with
      | '\x7d' :: rest => (.object [] none, some rest)
      | rest =>
        let (entries, stop, rest) := entries depth rest
        (.object entries stop, rest)
    | c :: rest =>
      if c = '-' || Decimal.isDigit c then
        match numeral (c :: rest) with
        | .read n rest => (.number n, some rest)
        | .broken stop => (.broken stop, none)
      else (.broken (.both .malformed), none)

def items : Nat → List Char → List Json × Option Break × Option (List Char)
  | 0, _ => ([], some (.both .truncated), none)
  | depth + 1, cs =>
    match value depth cs with
    | (item, none) => ([item], some (.both .truncated), none)
    | (item, some rest) =>
      match skipBlank rest with
      | ']' :: rest => ([item], none, some rest)
      | ',' :: rest =>
        let (others, stop, rest) := items depth rest
        (item :: others, stop, rest)
      | rest => ([item], some (missing rest), none)

def entries : Nat → List Char → List (Option String × Json) × Option Break × Option (List Char)
  | 0, _ => ([], some (.both .truncated), none)
  | depth + 1, cs =>
    match cs with
    | '"' :: rest =>
      match quoted .start rest with
      | .broken stop => ([], some stop, none)
      | .closed key rest =>
        match skipBlank rest with
        | ':' :: rest =>
          match value depth rest with
          | (item, none) => ([(key, item)], some (.both .truncated), none)
          | (item, some rest) =>
            match skipBlank rest with
            | '\x7d' :: rest => ([(key, item)], none, some rest)
            | ',' :: rest =>
              let (others, stop, rest) := entries depth (skipBlank rest)
              ((key, item) :: others, stop, rest)
            | rest => ([(key, item)], some (missing rest), none)
        | rest => ([(key, .broken (missing rest))], some (.both .truncated), none)
    | rest => ([], some (missing rest), none)

end

def ofText (text : String) : Json × Bool :=
  let cs := text.toList
  match value (2 * cs.length + 2) cs with
  | (tree, none) => (tree, false)
  | (tree, some rest) => (tree, !(skipBlank rest).isEmpty)

end Json

end CircuitSim
