/-!
TOML values, and how the lines of a document build up its tables. A table may be opened by a header once, may be
implied by the headers of tables inside it, or may be made by dotted keys; dotted keys only add to tables of their
own kind or inside implied ones, and a value in braces is closed for good.
-/
namespace CircuitSim

inductive Toml.Origin
  | header
  /-- Named only as a parent in the header of another table. -/
  | implied
  | dotted
  | braces
  deriving DecidableEq, Repr, Inhabited

inductive Toml
  | text (value : String)
  | bool (value : Bool)
  | scalar
  | array (items : List Toml)
  | table (origin : Toml.Origin) (entries : List (String × Toml))
  /-- The tables of one repeated header, the last one first. -/
  | tables (last : List (String × Toml)) (others : List (List (String × Toml)))
  deriving Repr, Inhabited

namespace Toml

abbrev Entries := List (String × Toml)

inductive Line
  | entry (path : List String) (key : String) (value : Toml)
  | header (path : List String) (key : String)
  | element (path : List String) (key : String)
  deriving Repr, Inhabited

/-- Changes the value of a key, or gives a missing key its first value. -/
def Entries.alter (key : String) (change : Option Toml → Option Toml) : Entries → Option Entries
  | [] => (change none).map fun value => [(key, value)]
  | (other, value) :: rest =>
    if other = key then (change (some value)).map fun value => (key, value) :: rest
    else (alter key change rest).map ((other, value) :: ·)

/-- A path written with dots may not go through a table that has a header. -/
def passable (made origin : Origin) : Bool :=
  match origin with
  | .header => made ≠ .dotted
  | .implied | .dotted => true
  | .braces => false

/-- Changes the table at the end of a path. Tables that are missing are `made`; a repeated table stands for the
last one of it. -/
def descend (made : Origin) (change : Origin → Entries → Option Entries) :
    List String → Origin → Entries → Option Entries
  | [], origin, entries => change origin entries
  | key :: path, _, entries =>
    entries.alter key fun found =>
      match found with
      | none => (descend made change path made []).map (.table made)
      | some (.table origin inner) =>
        if passable made origin then (descend made change path origin inner).map (.table origin) else none
      | some (.tables last others) =>
        (descend made change path .header last).map fun last => .tables last others
      | some _ => none

/-- Adds an entry below a table. A dotted key ends in a table that dotted keys have made. -/
def insert (path : List String) (key : String) (value : Toml) (origin : Origin) (entries : Entries) :
    Option Entries :=
  descend .dotted (fun origin entries =>
    if !path.isEmpty && origin ≠ .dotted then none
    else entries.alter key fun found => if found.isSome then none else some value) path origin entries

def ofPairs (pairs : List (List String × String × Toml)) : Option Toml :=
  (pairs.foldlM (fun entries (path, key, value) => insert path key value .braces entries) []).map
    (.table .braces)

def openTable (found : Option Toml) : Option Toml :=
  match found with
  | none => some (.table .header [])
  | some (.table .implied entries) => some (.table .header entries)
  | some _ => none

def openElement (found : Option Toml) : Option Toml :=
  match found with
  | none => some (.tables [] [])
  | some (.tables last others) => some (.tables [] (last :: others))
  | some _ => none

/-- The document so far, and the path of the table that entries go to. -/
structure Draft where
  entries : Entries
  current : List String
  deriving Repr, Inhabited

def Draft.add (draft : Draft) (line : Line) : Option Draft :=
  match line with
  | .entry path key value =>
    (descend .implied (insert path key value) draft.current .header draft.entries).map
      fun entries => { draft with entries }
  | .header path key =>
    (descend .implied (fun _ entries => entries.alter key openTable) path .header draft.entries).map
      fun entries => ⟨entries, path ++ [key]⟩
  | .element path key =>
    (descend .implied (fun _ entries => entries.alter key openElement) path .header draft.entries).map
      fun entries => ⟨entries, path ++ [key]⟩

def ofLines (lines : List Line) : Option Entries :=
  (lines.foldlM Draft.add ⟨[], []⟩).map (·.entries)

end Toml

end CircuitSim
