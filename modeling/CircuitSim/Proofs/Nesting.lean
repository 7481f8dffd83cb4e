import CircuitSim.Proofs.Subcircuit

/-! How a graph lays out its state. The slices of its nodes share out all bytes, one after the other, and what is
inside an instance has a run of nodes and a run of bytes that are those of its definition on its own. Main statement:
`stateNests`. -/
namespace CircuitSim

def Node.Owns (node : Node) (byte : Nat) : Prop :=
  node.stateOffset ≤ byte ∧ byte < node.stateOffset + node.primitive.stateBytes

/- Nodes that share out the bytes from `start` to `stop`, in order. -/
structure Shares (start : Nat) (nodes : List Node) (stop : Nat) : Prop where
  consecutive : Stacked start nodes stop
  disjoint : nodes.Pairwise fun a b => ∀ byte, ¬(a.Owns byte ∧ b.Owns byte)
  covers : ∀ byte, (∃ node ∈ nodes, node.Owns byte) ↔ start ≤ byte ∧ byte < stop

namespace Stacked

variable {start stop : Nat} {nodes : List Node} (stacked : Stacked start nodes stop)
include stacked

theorem shares : Shares start nodes stop := by
  refine ⟨stacked, stacked.ordered.imp fun {a b} before byte both => ?_, fun byte => ⟨?_, ?_⟩⟩
  · obtain ⟨⟨-, last⟩, ⟨first, -⟩⟩ := both
    omega
  · rintro ⟨node, mem, first, last⟩
    obtain ⟨low, high⟩ := stacked.inside node mem
    omega
  · rintro ⟨first, last⟩
    exact stacked.covers first last

theorem stateful : Stacked start (nodes.filter (·.primitive.isStateful)) stop := by
  induction stacked with
  | nil => exact .nil _
  | @cons node rest stop tail ih =>
    cases keeps : node.primitive.isStateful with
    | true =>
      rw [List.filter_cons_of_pos (by exact keeps)]
      exact .cons ih
    | false =>
      rw [Primitive.stateBytes_eq_zero keeps, Nat.add_zero] at ih
      rwa [List.filter_cons_of_neg (by simp [keeps])]

theorem under {path : List String} {base : Nat} {run : List Node}
    (all : List.Forall₂ (Node.Under path base) nodes run) : Stacked (base + start) run (base + stop) := by
  induction stacked generalizing run with
  | nil =>
    cases all
    exact .nil _
  | @cons node rest stop tail ih =>
    cases all with
    | @cons _ whole _ run under behind =>
      have next := ih behind
      rw [← Nat.add_assoc, ← under.offset, ← under.primitive] at next
      rw [← under.offset]
      exact .cons next

end Stacked

def Graph.run (graph inner : Graph) (first : Nat) : List Node := (graph.nodes.drop first).take inner.nodes.length

/- An inner graph has a run of the nodes and of the bytes, and all nodes below its path are in it. -/
structure Graph.Nests (graph inner : Graph) (path : List String) (first base : Nat) : Prop where
  below : ∀ i node, graph.nodes[i]? = some node →
    (path <+: node.path ↔ first ≤ i ∧ i < first + inner.nodes.length)
  nodes : List.Forall₂ (Node.Under path base) inner.nodes (graph.run inner first)
  state : Shares base ((graph.run inner first).filter (·.primitive.isStateful)) (base + inner.stateBytes)

namespace Graph.Inlines

variable {graph inner : Graph} {path : List String} {first base : Nat} (inlines : graph.Inlines inner path first base)
include inlines

theorem runAt {j : Nat} {node : Node} (here : inner.nodes[j]? = some node) :
    ∃ whole, (graph.run inner first)[j]? = some whole ∧ Node.Under path base node whole := by
  obtain ⟨whole, found, under⟩ := inlines.nodes j node here
  obtain ⟨inside, -⟩ := List.getElem?_eq_some_iff.mp here
  refine ⟨whole, ?_, under⟩
  rw [run, List.getElem?_take_of_lt inside, List.getElem?_drop, found]

theorem runAll : List.Forall₂ (Node.Under path base) inner.nodes (graph.run inner first) := by
  have short : (graph.run inner first).length ≤ inner.nodes.length := List.length_take_le _ _
  have long : inner.nodes.length ≤ (graph.run inner first).length := by
    by_contra fewer
    have here := List.getElem?_eq_getElem (Nat.lt_of_not_le fewer)
    obtain ⟨whole, found, -⟩ := inlines.runAt here
    obtain ⟨inside, -⟩ := List.getElem?_eq_some_iff.mp found
    exact Nat.lt_irrefl _ inside
  refine List.forall₂_iff_get.mpr ⟨Nat.le_antisymm long short, fun j inside inside' => ?_⟩
  obtain ⟨whole, found, under⟩ := inlines.runAt (List.getElem?_eq_getElem inside)
  rw [List.getElem?_eq_getElem inside'] at found
  obtain rfl := Option.some.inj found
  exact under

end Graph.Inlines

namespace Design.Holds

variable {circuit : Circuit} {library : Library} {root : Nat} {outer inner : Design} {place : Place}
  (holds : outer.Holds inner place) (of : outer.Of circuit library root) (named : circuit.Named) {graph part : Graph}
  (flat : outer.Flat graph) (flat' : inner.Flat part)
include holds of named flat flat'

theorem nests : ∃ first base, graph.Nests part (outer.path place) first base := by
  obtain ⟨first, base, inlines, index⟩ := holds.inlines flat flat'
  refine ⟨first, base, fun i node here => ⟨?_, ?_⟩, inlines.runAll, ?_⟩
  · rintro ⟨path, same⟩
    obtain ⟨leaf, at', stands⟩ := Result.forallAt flat.nodes.flip here
    obtain ⟨own, name, item⟩ := leavesEntry leaf (List.mem_of_getElem? at')
    rw [stands.path, own] at same
    obtain ⟨under, spot⟩ := holds.placeInside of named (.inr ⟨_, item⟩) same.symm
    rw [spot] at item
    cases under with
    | nil =>
      -- a definition stands at the place, not a primitive
      have none := scopeNone item
      rw [List.nil_append, holds.scope] at none
      exact nomatch none
    | cons k under =>
      have item' := (holds.itemUnder k under).symm.trans item
      obtain ⟨leaf', found, -⟩ := findLeaf item'
      obtain ⟨bound, -⟩ := List.getElem?_eq_some_iff.mp found
      have number := index _ _ _ item'
      rw [← spot, leafIndex at'] at number
      rw [← flat'.nodes.length_eq]
      omega
  · rintro ⟨low, high⟩
    obtain ⟨j, rfl⟩ := Nat.exists_eq_add_of_le low
    have inside : j < part.nodes.length := by omega
    obtain ⟨whole, found, under⟩ := inlines.nodes j _ (List.getElem?_eq_getElem inside)
    rw [here] at found
    cases found
    exact ⟨_, under.path.symm⟩
  · have stacked := flat'.stacked.under inlines.runAll
    rw [Nat.add_zero] at stacked
    exact stacked.stateful.shares

end Design.Holds

namespace Circuit

/-- The state of a definition is shared out among the nodes that have some, if its bytes can be counted in 64 bits, and
each of its instances at any depth nests in it as it is on its own. -/
theorem stateNests (circuit : Circuit) (library : Library) (checked : circuit.validate = .ok ()) (root : Nat)
    (graph : Graph) (flat : circuit.flatten library root = .ok graph) :
    (graph.stateBytes < 2 ^ 64 → Shares 0 (graph.nodes.filter (·.primitive.isStateful)) graph.stateBytes) ∧
      (library.Placeless → ∀ path id inner, circuit.Within root path id → circuit.flatten library id = .ok inner →
        ∃ first base, graph.Nests inner path first base) := by
  obtain ⟨design, of, flattened⟩ := flattenOf flat
  refine ⟨fun _ => flattened.stacked.stateful.shares, fun placeless path id inner within flat' => ?_⟩
  obtain ⟨design', of', flattened'⟩ := flattenOf flat'
  obtain ⟨place, rfl, holds⟩ := of.holds placeless of' within
  exact holds.nests of (validateNamed checked) flattened flattened'

theorem cellsNest : ∃ graph inner first base, cells.flatten .builtin 1 = .ok graph ∧
    cells.flatten .builtin 0 = .ok inner ∧ Shares 0 (graph.nodes.filter (·.primitive.isStateful)) graph.stateBytes ∧
    graph.Nests inner ["second"] first base := by
  have within : cells.Within 1 ["second"] 0 :=
    @Within.inside cells 1 [] 1 0 ⟨"second", .definition "cell"⟩ "cell" .root (by decide) rfl rfl
  obtain ⟨graph, flat, small⟩ := Result.okAny (show (cells.flatten .builtin 1).toOption.any
    (fun graph => decide (graph.stateBytes < 2 ^ 64)) = true by decide +kernel)
  obtain ⟨inner, flat', -⟩ := Result.okAny (show (cells.flatten .builtin 0).toOption.any (fun _ => true) = true by
    decide +kernel)
  obtain ⟨shares, nests⟩ := stateNests cells .builtin rfl 1 graph flat
  obtain ⟨first, base, nest⟩ := nests Library.builtinPlaceless ["second"] 0 inner within flat'
  exact ⟨graph, inner, first, base, flat, flat', shares (of_decide_eq_true small), nest⟩

end Circuit

end CircuitSim
