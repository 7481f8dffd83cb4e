import CircuitSim.Code.Element
import CircuitSim.Primitive.Basic

/-!
The code of a primitive in two parts: `compute` yields the output from the inputs that it reads and from the
state, and `update` advances the state. State is the instance's own slice of bytes.
-/
namespace CircuitSim.Primitive

/-- An address as a 64-bit index below `depth`. A depth that is a power of two needs no remainder. -/
def boundedIndex (address : Ref) (depth : Nat) : Emit Ref := do
  let width := Width.address depth
  let index ← Emit.resize address width 64
  if width < 64 ∧ depth = 2 ^ width then return index
  else Emit.urem 64 index depth

/-- `inputs` are the values of the inputs in `reads`, in that order. -/
def compute (primitive : Primitive) (inputs : List Ref) (state : Ref) : Emit Ref :=
  let input (k : Nat) : Ref := inputs.getD k 0
  match primitive with
  | register width => Emit.loadField state (.bytes 0 width)
  | const width value => Emit.const width value
  | binary op width => Emit.binary op width (input 0) (input 1)
  | not width => Emit.not width (input 0)
  | compare op width => Emit.compare op width (input 0) (input 1)
  | mux width => Emit.select width (input 2) (input 0) (input 1)
  | mem width depth => do
    let index ← boundedIndex (input 0) depth
    Emit.loadElement state index width

/-- `inputs` are the values of all inputs. -/
def update (primitive : Primitive) (inputs : List Ref) (state : Ref) : Emit Unit :=
  let input (k : Nat) : Ref := inputs.getD k 0
  match primitive with
  | register width => Emit.storeField state (.bytes 0 width) (input 0)
  | mem width depth =>
    Emit.branch (input 2) do
      let index ← boundedIndex (input 0) depth
      Emit.storeElement state index width (input 1)
  | _ => pure ()

end CircuitSim.Primitive
