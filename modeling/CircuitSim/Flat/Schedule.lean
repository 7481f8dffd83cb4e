import CircuitSim.Fault
import CircuitSim.Flat.Graph

/-!
An order of the nodes in which each comes after the makers of the inputs that it reads. Nodes wait in a queue
once all their makers are in the order; the first in the queue goes next, and what it was the last missing maker
of joins the queue. Nodes that never join lie on a cycle or behind one. All that a node reads has to be there: an
input that it lacks, or a node that is none of the list, stops the program.
-/
namespace CircuitSim

namespace Schedule

/-- The nodes that make the inputs that a node reads, as often as it reads them. -/
def makers (node : Node) : List Nat :=
  node.primitive.reads.filterMap fun k =>
    match node.inputs[k]? with
    | some (Source.node i) => some i
    | _ => none

/-- A node has the inputs that it reads, from the first `count` nodes. -/
def complete (count : Nat) (node : Node) : Bool :=
  node.primitive.reads.all fun k =>
    match node.inputs[k]? with
    | some (Source.node i) => i < count
    | some (Source.input _) => true
    | none => false

/-- The nodes that read from `i` and have no other maker missing. -/
def released (table : Array (List Nat)) (order : List Nat) (i : Nat) : List Nat :=
  (List.range table.size).filter fun user =>
    let needed := table.getD user []
    needed.contains i && needed.all order.contains

def drain (table : Array (List Nat)) : Nat → List Nat → List Nat → List Nat
  | 0, _, order => order
  | _ + 1, [], order => order
  | steps + 1, i :: queue, order =>
    let order := order ++ [i]
    drain table steps (queue ++ released table order i) order

def ready (table : Array (List Nat)) : List Nat :=
  (List.range table.size).filter fun i => (table.getD i []).isEmpty

end Schedule

def schedule (nodes : List Node) : Except Fault (List Nat) :=
  if nodes.all (Schedule.complete nodes.length) then
    let table := (nodes.map Schedule.makers).toArray
    let order := Schedule.drain table nodes.length (Schedule.ready table) []
    if order.length < nodes.length then
      .error (.combinationalCycle (nodes.zipIdx.filterMap fun (node, i) =>
        if order.contains i then none else some (".".intercalate node.path)))
    else .ok order
  else .error (.trap .missing)

end CircuitSim
