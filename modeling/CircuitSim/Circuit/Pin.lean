/-!
Names of pins inside a definition. `u.x` is pin `x` of instance `u`, and `self.x` or a bare `x` is the
definition's own port `x`; only the first dot separates, so a port name may hold further dots.
-/
namespace CircuitSim

structure Pin where
  owner : Option String
  port : String
  deriving DecidableEq, Repr, Inhabited

namespace Pin

def own (port : String) : Pin := ⟨none, port⟩

def of (owner port : String) : Pin := ⟨some owner, port⟩

/-- Splits at the first dot; `none` where there is no dot. -/
def split : List Char → Option (List Char × List Char)
  | [] => none
  | c :: rest =>
    if c = '.' then some ([], rest)
    else (split rest).map fun (head, tail) => (c :: head, tail)

def ofText (text : String) : Pin :=
  match split text.toList with
  | none => own text
  | some (head, tail) =>
    if String.ofList head = "self" then own (String.ofList tail)
    else of (String.ofList head) (String.ofList tail)

def text (pin : Pin) : String :=
  match pin.owner with
  | some owner => s!"{owner}.{pin.port}"
  | none => s!"self.{pin.port}"

theorem split_append {head tail : List Char} (h : '.' ∉ head) :
    split (head ++ '.' :: tail) = some (head, tail) := by
  induction head with
  | nil => simp [split]
  | cons c head ih =>
    have hc : c ≠ '.' := fun e => h (by simp [e])
    simp [split, hc, ih (fun m => h (List.mem_cons_of_mem _ m))]

theorem split_eq_none {text : List Char} (h : '.' ∉ text) : split text = none := by
  induction text with
  | nil => rfl
  | cons c text ih =>
    have hc : c ≠ '.' := fun e => h (by simp [e])
    simp [split, hc, ih (fun m => h (List.mem_cons_of_mem _ m))]

end Pin

end CircuitSim
