import CircuitSim.Code.Basic
import CircuitSim.Fault

/-!
Writing code. An `Emit` computation gets the next free value number and answers its result, the code that it
wrote and the next free number, or a fault. Running two of them one after the other appends their code.
-/
namespace CircuitSim

structure Written (α : Type) where
  result : α
  code : Code
  next : Nat
  deriving Repr

def Emit (α : Type) : Type := Nat → Except Fault (Written α)

namespace Emit

def pure {α : Type} (result : α) : Emit α := fun next => .ok ⟨result, .done, next⟩

def bind {α β : Type} (first : Emit α) (second : α → Emit β) : Emit β := fun next =>
  match first next with
  | .error fault => .error fault
  | .ok a =>
    match second a.result a.next with
    | .error fault => .error fault
    | .ok b => .ok ⟨b.result, a.code ++ b.code, b.next⟩

instance : Monad Emit where
  pure := pure
  bind := bind

def fail {α : Type} (fault : Fault) : Emit α := fun _ => .error fault

/-- What is looked up and not there stops the program. -/
def ofOption {α : Type} (found : Option α) : Emit α :=
  match found with
  | some result => pure result
  | none => fail (.trap .missing)

def op (op : Op) : Emit Ref := fun next => .ok ⟨next, .define op .done, next + 1⟩

def effect (code : Code) : Emit Unit := fun next => .ok ⟨(), code, next + code.values⟩

def const (width value : Nat) : Emit Ref := op (.const width value)

def binary (o : BinaryOp) (width : Nat) (lhs rhs : Ref) : Emit Ref := op (.binary o width lhs rhs)

def not (width : Nat) (arg : Ref) : Emit Ref := op (.not width arg)

def compare (o : CompareOp) (width : Nat) (lhs rhs : Ref) : Emit Ref := op (.compare o width lhs rhs)

def select (width : Nat) (cond whenSet whenClear : Ref) : Emit Ref :=
  op (.select width cond whenSet whenClear)

def shl (width : Nat) (arg amount : Ref) : Emit Ref := op (.shl width arg amount)

def lshr (width : Nat) (arg amount : Ref) : Emit Ref := op (.lshr width arg amount)

def urem (width : Nat) (arg : Ref) (divisor : Nat) : Emit Ref := op (.urem width arg divisor)

def resize (arg : Ref) (source target : Nat) : Emit Ref := op (.resize arg source target)

def load (ptr : Ref) (offset : Int) (bytes : Nat) : Emit Ref := op (.load ptr offset bytes)

def offset (ptr : Ref) (distance : Int) : Emit Ref := op (.offset ptr distance)

def index (width : Nat) (ptr distance : Ref) : Emit Ref := op (.index width ptr distance)

def slot (bytes : Nat) : Emit Ref := op (.slot bytes)

def param (index : Nat) : Emit Ref := op (.param index)

def store (arg ptr : Ref) (offset : Int) (bytes : Nat) : Emit Unit :=
  effect (.store arg ptr offset bytes .done)

def call (function : Nat) (args : List Ref) : Emit Unit := effect (.call function args .done)

def branch (cond : Ref) (body : Emit Unit) : Emit Unit := fun next =>
  match body next with
  | .error fault => .error fault
  | .ok body => .ok ⟨(), .branch cond body.code .done, body.next⟩

/-- The code of a whole body, numbered from zero. -/
def code (body : Emit Unit) : Except Fault Code := (body 0).map (·.code)

end Emit

end CircuitSim
