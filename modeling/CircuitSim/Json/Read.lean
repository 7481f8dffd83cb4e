import CircuitSim.Json.Basic

/-!
Reading values out of JSON trees. A structure is an object with one entry for each field, or an array with the
fields in order; entries of other names are passed over, a repeated field is refused, and a field that may be
missing keeps the value it has. Each reader answers the first fault in the order of the text.
-/
namespace CircuitSim.Json

abbrev Reader (α : Type) := Json → Except ReadFault α

/-- The fault of a value that is not of the wanted kind: a broken one is broken whatever it was to be. -/
def fault : Json → ReadFault
  | .broken stop => stop.read
  | .number .outOfRange => .malformed
  | .string none => .malformed
  | _ => .mistyped

def stopped {α : Type} (stop : Option Break) (x : α) : Except ReadFault α :=
  match stop with
  | some stop => .error stop.read
  | none => .ok x

def readText : Reader String
  | .string (some text) => .ok text
  | j => .error j.fault

def readBelow (bound : Nat) : Reader Nat
  | .number (.whole n) => if n < bound then .ok n else .error .mistyped
  | j => .error j.fault

def readList {α : Type} (item : Reader α) : Reader (List α)
  | .array items stop => do stopped stop (← items.mapM item)
  | j => .error j.fault

def readOption {α : Type} (some? : Reader α) : Reader (Option α)
  | .null => .ok none
  | j => (some? j).map some

mutual

def skip : Json → Except ReadFault Unit
  | .broken stop => .error stop.skip
  | .array items stop => do
    skipItems items
    skipStop stop
  | .object entries stop => do
    skipEntries entries
    skipStop stop
  | _ => .ok ()

def skipItems : List Json → Except ReadFault Unit
  | [] => .ok ()
  | item :: rest => do
    skip item
    skipItems rest

def skipEntries : List (Option String × Json) → Except ReadFault Unit
  | [] => .ok ()
  | (_, item) :: rest => do
    skip item
    skipEntries rest

def skipStop : Option Break → Except ReadFault Unit
  | some stop => .error stop.skip
  | none => .ok ()

end

/-- A field of a structure: how it is read into the structure, and whether it has to be there. -/
structure Field (σ : Type) where
  name : String
  required : Bool
  read : Json → σ → Except ReadFault σ

def readInOrder {σ : Type} : List (Field σ) → List Json → Option Break → σ → Except ReadFault σ
  | [], [], stop, s => stopped stop s
  | [], _ :: _, _, _ => .error .malformed
  | field :: fields, item :: items, stop, s => do
    let s ← field.read item s
    readInOrder fields items stop s
  | _ :: _, [], some stop, _ => .error stop.read
  | field :: fields, [], none, s => if field.required then .error .mistyped else readInOrder fields [] none s

/-- Reads entries in any order; `seen` are the fields that have been read. -/
def readEntries {σ : Type} (fields : List (Field σ)) :
    List String → List (Option String × Json) → σ → Except ReadFault (List String × σ)
  | seen, [], s => .ok (seen, s)
  | _, (none, _) :: _, _ => .error .malformed
  | seen, (some key, item) :: rest, s =>
    match fields.find? (·.name = key) with
    | none => do
      skip item
      readEntries fields seen rest s
    | some field =>
      if key ∈ seen then .error .mistyped
      else do
        let s ← field.read item s
        readEntries fields (key :: seen) rest s

def readStructure {σ : Type} (fields : List (Field σ)) (start : σ) : Reader σ
  | .array items stop => readInOrder fields items stop start
  | .object entries stop => do
    let (seen, s) ← readEntries fields [] entries start
    let s ← stopped stop s
    if fields.any fun field => field.required && !seen.contains field.name then .error .mistyped
    else return s
  | j => .error j.fault

/-- Containers nest less deep than this where their contents are kept. -/
def depthLimit : Nat := 128

mutual

/-- Accepts a value whose contents are kept for later, at a depth of containers. -/
def keep (depth : Nat) : Json → Except ReadFault Unit
  | .array items stop =>
    if depthLimit ≤ depth + 1 then .error .malformed
    else do
      keepItems (depth + 1) items
      stopped stop ()
  | .object entries stop =>
    if depthLimit ≤ depth + 1 then .error .malformed
    else do
      keepEntries (depth + 1) entries
      stopped stop ()
  | .broken stop => .error stop.read
  | .number .outOfRange => .error .malformed
  | .string none => .error .malformed
  | _ => .ok ()

def keepItems (depth : Nat) : List Json → Except ReadFault Unit
  | [] => .ok ()
  | item :: rest => do
    keep depth item
    keepItems depth rest

def keepEntries (depth : Nat) : List (Option String × Json) → Except ReadFault Unit
  | [] => .ok ()
  | (none, _) :: _ => .error .malformed
  | (some _, item) :: rest => do
    keep depth item
    keepEntries depth rest

end

def readDocument {α : Type} (reader : Reader α) (text : String) : Except ReadFault α := do
  let (tree, more) := ofText text
  let x ← reader tree
  if more then .error .malformed else return x

end CircuitSim.Json
