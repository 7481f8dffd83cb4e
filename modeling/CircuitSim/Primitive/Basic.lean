import CircuitSim.Code.Basic

/-!
The primitives that circuits are made of: their pins, the widths of the pins and the bytes of state that one
instance owns. Every primitive has exactly one output. `reads` lists the inputs that the output depends on
within a step; a register or a memory depends on its other inputs only through its state.
-/
namespace CircuitSim

inductive Primitive
  /-- Shows in a step what its input was in the step before. -/
  | register (width : Nat)
  | const (width value : Nat)
  | binary (op : BinaryOp) (width : Nat)
  | not (width : Nat)
  | compare (op : CompareOp) (width : Nat)
  | mux (width : Nat)
  /-- One write port, and one read port that shows the addressed word at once. -/
  | mem (width depth : Nat)
  deriving DecidableEq, Repr, Inhabited

namespace Primitive

def kind : Primitive → String
  | register _ => "register"
  | const .. => "const"
  | binary op _ =>
    match op with
    | .add => "add"
    | .sub => "sub"
    | .mul => "mul"
    | .and => "and"
    | .or => "or"
    | .xor => "xor"
  | not _ => "not"
  | compare op _ =>
    match op with
    | .eq => "eq"
    | .ne => "neq"
  | mux _ => "mux"
  | mem .. => "mem"

def isStateful : Primitive → Bool
  | register _ | mem .. => true
  | _ => false

def stateBytes : Primitive → Nat
  | register width => Width.bytes width
  | mem width depth => (Width.packedBytes? width depth).getD 0
  | _ => 0

def inputs : Primitive → List (String × Nat)
  | register width | not width => [("in", width)]
  | const .. => []
  | binary _ width | compare _ width => [("lhs", width), ("rhs", width)]
  | mux width => [("lhs", width), ("rhs", width), ("sel", 1)]
  | mem width depth =>
    [("waddr", Width.address depth), ("wdata", width), ("wen", 1), ("raddr", Width.address depth)]

def output : Primitive → String × Nat
  | register width | const width _ | not width => ("out", width)
  | binary op width =>
    match op with
    | .add => ("sum", width)
    | .mul => ("prod", width)
    | _ => ("out", width)
  | compare .. => ("bit", 1)
  | mux width => ("result", width)
  | mem width _ => ("rdata", width)

def reads : Primitive → List Nat
  | register _ | const .. => []
  | not _ => [0]
  | binary .. | compare .. => [0, 1]
  | mux _ => [0, 1, 2]
  | mem .. => [3]

theorem stateBytes_eq_zero {primitive : Primitive} (h : primitive.isStateful = false) :
    primitive.stateBytes = 0 := by
  cases primitive <;> simp_all [isStateful, stateBytes]

theorem reads_lt (primitive : Primitive) : ∀ k ∈ primitive.reads, k < primitive.inputs.length := by
  cases primitive <;> simp [reads, inputs]

end Primitive

end CircuitSim
