import CircuitSim.Circuit.Basic

/-!
The definitions below a definition, each after those that it instantiates. The search carries the chain of
definitions that are being visited; meeting one of them again is a recursive instantiation.
-/
namespace CircuitSim.Circuit

def recursion (circuit : Circuit) (id : Nat) (chain : List Nat) : Fault :=
  .invalidCircuit (.recursive (circuit.definition id).name (chain.map fun d => (circuit.definition d).name))

/-- Extends `order`, the finished definitions, by `id` and what it needs. A chain holds a definition at most
once, so a depth of one more than the circuit's size is never used up. -/
def visit (circuit : Circuit) : Nat → List Nat → Nat → List Nat → Except Fault (List Nat)
  | 0, chain, id, _ => .error (circuit.recursion id chain)
  | depth + 1, chain, id, order =>
    if id ∈ order then .ok order
    else if id ∈ chain then .error (circuit.recursion id chain)
    else do
      let order ← (circuit.definition id).children.foldlM
        (fun order name => do
          let child ← circuit.lookup name
          visit circuit depth (chain ++ [id]) child order)
        order
      return order ++ [id]

/-- Every definition reachable from `root`, children before parents, `root` last. -/
def reachable (circuit : Circuit) (root : Nat) : Except Fault (List Nat) :=
  circuit.visit (circuit.size + 1) [] root []

end CircuitSim.Circuit
