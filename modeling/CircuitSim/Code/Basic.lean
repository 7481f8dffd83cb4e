import CircuitSim.Width

/-!
Straight-line code over numbered values. Each operation that yields a value takes the next number, counted
through the whole text, and later operations name their operands by number. A branch holds the code that runs
only when its condition is set; numbers given inside it are not used behind it.
-/
namespace CircuitSim

abbrev Ref := Nat

inductive BinaryOp
  | add | sub | mul | and | or | xor
  deriving DecidableEq, Repr, Inhabited

inductive CompareOp
  | eq | ne
  deriving DecidableEq, Repr, Inhabited

/-- An operation that yields a value. Widths are in bits, sizes in bytes. -/
inductive Op
  | const (width value : Nat)
  | binary (op : BinaryOp) (width : Nat) (lhs rhs : Ref)
  | not (width : Nat) (arg : Ref)
  | compare (op : CompareOp) (width : Nat) (lhs rhs : Ref)
  | select (width : Nat) (cond whenSet whenClear : Ref)
  | shl (width : Nat) (arg amount : Ref)
  | lshr (width : Nat) (arg amount : Ref)
  | urem (width : Nat) (arg : Ref) (divisor : Nat)
  /-- The same number at another width, cut or continued with zeros. -/
  | resize (arg : Ref) (source target : Nat)
  | load (ptr : Ref) (offset : Int) (bytes : Nat)
  | offset (ptr : Ref) (distance : Int)
  | index (width : Nat) (ptr distance : Ref)
  /-- The address of fresh memory that lasts as long as the call. -/
  | slot (bytes : Nat)
  | param (index : Nat)
  deriving DecidableEq, Repr

inductive Code
  | done
  | define (op : Op) (rest : Code)
  | store (arg ptr : Ref) (offset : Int) (bytes : Nat) (rest : Code)
  | call (function : Nat) (args : List Ref) (rest : Code)
  | branch (cond : Ref) (body rest : Code)
  deriving DecidableEq, Repr

namespace Code

def append : Code → Code → Code
  | done, code => code
  | define op rest, code => define op (rest.append code)
  | store arg ptr offset bytes rest, code => store arg ptr offset bytes (rest.append code)
  | call function args rest, code => call function args (rest.append code)
  | branch cond body rest, code => branch cond body (rest.append code)

instance : Append Code := ⟨append⟩

def values : Code → Nat
  | done => 0
  | define _ rest => rest.values + 1
  | store _ _ _ _ rest => rest.values
  | call _ _ rest => rest.values
  | branch _ body rest => body.values + rest.values

@[simp] theorem done_append (code : Code) : done ++ code = code := rfl

@[simp] theorem define_append (op : Op) (rest code : Code) :
    define op rest ++ code = define op (rest ++ code) := rfl

@[simp] theorem store_append (arg ptr : Ref) (offset : Int) (bytes : Nat) (rest code : Code) :
    store arg ptr offset bytes rest ++ code = store arg ptr offset bytes (rest ++ code) := rfl

@[simp] theorem call_append (function : Nat) (args : List Ref) (rest code : Code) :
    call function args rest ++ code = call function args (rest ++ code) := rfl

@[simp] theorem branch_append (cond : Ref) (body rest code : Code) :
    branch cond body rest ++ code = branch cond body (rest ++ code) := rfl

@[simp] theorem append_done (code : Code) : code ++ done = code := by
  induction code <;> simp_all

theorem append_assoc (a b c : Code) : (a ++ b) ++ c = a ++ (b ++ c) := by
  induction a <;> simp_all

@[simp] theorem values_append (a b : Code) : (a ++ b).values = a.values + b.values := by
  induction a <;> simp_all [values] <;> omega

end Code

end CircuitSim
