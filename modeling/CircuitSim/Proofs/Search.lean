import CircuitSim.Proofs.Instantiation
import Mathlib.Data.List.Chain

/-! How the search for the definitions below a definition ends. It lists each of them once, after all that it
instantiates; or it fails at a name that no definition has, or at a definition that it has come to from itself. Main
statement: `reachableDecides`. -/
namespace CircuitSim.Circuit
open Schedule (InOrder)

variable {circuit : Circuit}

structure Descent (circuit : Circuit) (root : Nat) (chain : List Nat) (id : Nat) : Prop
    extends circuit.Around chain id where
  starts : (chain ++ [id]).head? = some root
  steps : (chain ++ [id]).IsChain circuit.Instantiates

namespace Descent

variable {root id child : Nat} {chain : List Nat}

theorem start (root : Nat) : circuit.Descent root [] root := ⟨.nil root, rfl, .singleton root⟩

theorem push (descent : circuit.Descent root chain id) (apart : id ∉ chain) (step : circuit.Instantiates id child) :
    circuit.Descent root (chain ++ [id]) child := by
  refine ⟨descent.toAround.push apart step, ?_, ?_⟩
  · rw [List.head?_append, descent.starts, Option.some_or]
  · refine descent.steps.append (.singleton child) fun last here next there => ?_
    rw [List.getLast?_concat] at here
    cases here
    cases there
    exact step

theorem needs (descent : circuit.Descent root chain id) : circuit.Needs root id := by
  cases chain with
  | nil =>
    cases descent.starts
    exact .refl
  | cons first rest =>
    cases descent.starts
    exact (descent.contains root List.mem_cons_self).to_reflTransGen

end Descent

section Depth

theorem foldSame {visit visit' : List Nat → Nat → Except Fault (List Nat)} {names : List String}
    (each : ∀ name ∈ names, ∀ child, circuit.lookup name = .ok child → ∀ order, visit order child = visit' order child)
    (order : List Nat) : names.foldlM (fun order name => do visit order (← circuit.lookup name)) order =
      names.foldlM (fun order name => do visit' order (← circuit.lookup name)) order := by
  induction names generalizing order with
  | nil => rfl
  | cons name rest ih =>
    have later := ih fun other mem => each other (List.mem_cons_of_mem name mem)
    rw [List.foldlM_cons, List.foldlM_cons]
    cases found : circuit.lookup name with
    | error fault => rfl
    | ok child =>
      have first := each name List.mem_cons_self child found order
      simp only [bind, Except.bind, first] at later ⊢
      cases visit' order child with
      | error fault => rfl
      | ok between => exact later between

theorem visitDeeper {root depth depth' id : Nat} {chain : List Nat} (descent : circuit.Descent root chain id)
    (deep : circuit.size < depth + chain.length) (deep' : circuit.size < depth' + chain.length) (order : List Nat) :
    circuit.visit depth chain id order = circuit.visit depth' chain id order := by
  induction depth generalizing depth' id chain order with
  | zero => exact absurd descent.short (by omega)
  | succ depth ih =>
    cases depth' with
    | zero => exact absurd descent.short (by omega)
    | succ depth' =>
      unfold visit
      split
      · rfl
      split
      · rfl
      rename_i apart
      have folded := @foldSame circuit (fun order child => circuit.visit depth (chain ++ [id]) child order)
        (fun order child => circuit.visit depth' (chain ++ [id]) child order) (circuit.definition id).children
        (fun name mem child found => by
          have length : (chain ++ [id]).length = chain.length + 1 := List.length_append
          exact ih (descent.push apart ⟨name, mem, found⟩) (by omega) (by omega)) order
      rw [folded]

end Depth

section Refusal

inductive Refuses (circuit : Circuit) (root : Nat) : Fault → Prop
  | unknown {id : Nat} {name : String} (needs : circuit.Needs root id) (mem : name ∈ (circuit.definition id).children)
      (missing : circuit.find? name = none) : Refuses circuit root (.unknownDefinition name)
  | recursive {id : Nat} {chain : List Nat} (descent : circuit.Descent root chain id) (again : id ∈ chain) :
      Refuses circuit root (circuit.recursion id chain)

theorem lookupFails {name : String} {fault : Fault} (failed : circuit.lookup name = .error fault) :
    circuit.find? name = none ∧ fault = .unknownDefinition name := by
  unfold lookup at failed
  cases found : circuit.find? name with
  | none =>
    rw [found] at failed
    exact ⟨rfl, (Except.error.inj failed).symm⟩
  | some id =>
    rw [found] at failed
    exact nomatch failed

theorem foldFails {visit : List Nat → Nat → Except Fault (List Nat)} {names : List String} {order : List Nat}
    {fault : Fault}
    (failed : names.foldlM (fun order name => do visit order (← circuit.lookup name)) order = .error fault) :
    ∃ name ∈ names, circuit.lookup name = .error fault ∨
      ∃ child order, circuit.lookup name = .ok child ∧ visit order child = .error fault := by
  induction names generalizing order with
  | nil => exact nomatch failed
  | cons name rest ih =>
    rw [List.foldlM_cons] at failed
    rcases Result.errorBind failed with first | ⟨between, -, later⟩
    · rcases Result.errorBind first with unknown | ⟨child, found, visited⟩
      · exact ⟨name, List.mem_cons_self, .inl unknown⟩
      · exact ⟨name, List.mem_cons_self, .inr ⟨child, order, found, visited⟩⟩
    · obtain ⟨other, mem, why⟩ := ih later
      exact ⟨other, List.mem_cons_of_mem name mem, why⟩

theorem visitRefuses {root depth id : Nat} {chain order : List Nat} {fault : Fault}
    (descent : circuit.Descent root chain id) (deep : circuit.size < depth + chain.length)
    (failed : circuit.visit depth chain id order = .error fault) : circuit.Refuses root fault := by
  induction depth generalizing id chain order with
  | zero => exact absurd descent.short (by omega)
  | succ depth ih =>
    unfold visit at failed
    split at failed
    · cases failed
    split at failed
    · rename_i again
      cases failed
      exact .recursive descent again
    rename_i apart
    rcases Result.errorBind failed with folded | ⟨between, -, done⟩
    · obtain ⟨name, mem, unknown | ⟨child, between, found, visited⟩⟩ :=
        @foldFails circuit (fun order child => circuit.visit depth (chain ++ [id]) child order) _ _ _ folded
      · obtain ⟨missing, rfl⟩ := lookupFails unknown
        exact .unknown descent.needs mem missing
      · refine ih (descent.push apart ⟨name, mem, found⟩) ?_ visited
        rw [List.length_append, List.length_singleton]
        omega
    · cases done

end Refusal

section Order

variable {root : Nat} {order : List Nat} (ok : circuit.reachable root = .ok order)
include ok

theorem reachableOrdered : InOrder circuit.parts [] order := (visitVisited ok (.nil [])).ordered

theorem reachableLast : order.getLast? = some root := by
  rw [reachable, visit, if_neg List.not_mem_nil, if_neg List.not_mem_nil] at ok
  obtain ⟨between, -, done⟩ := Result.okBind ok
  cases done
  exact List.getLast?_concat

end Order

/-- The search for what a definition needs comes to an end at every depth beyond the size of the circuit, and in the same
way. It succeeds exactly when all that can be reached exists and nothing of it contains itself; then it lists what can
be reached, each definition once and after all that it instantiates, with the root last. Otherwise a reachable definition
instantiates a name that no definition has, which the fault tells, or the fault tells a definition that contains itself
and the way on which it was come to again. -/
theorem reachableDecides (circuit : Circuit) (root : Nat) :
    (∀ depth, circuit.size < depth → circuit.visit depth [] root [] = circuit.reachable root) ∧
    ((∃ order, circuit.reachable root = .ok order) ↔
      (∀ id, circuit.Needs root id → ∀ name ∈ (circuit.definition id).children, ∃ child, circuit.lookup name = .ok child) ∧
        ∀ id, circuit.Needs root id → ¬Relation.TransGen circuit.Instantiates id id) ∧
    (∀ order, circuit.reachable root = .ok order → order.Nodup ∧ (∀ id, id ∈ order ↔ circuit.Needs root id) ∧
      (∀ id ∈ order, ∀ child, circuit.Instantiates id child → order.idxOf child < order.idxOf id) ∧
        order.getLast? = some root) ∧
    ∀ fault, circuit.reachable root = .error fault →
      (∃ name id, fault = .unknownDefinition name ∧ circuit.Needs root id ∧ name ∈ (circuit.definition id).children ∧
        ∀ definition ∈ circuit.definitions, definition.name ≠ name) ∨
      ∃ id chain, fault = .invalidCircuit (.recursive (circuit.definition id).name
          (chain.map fun outer => (circuit.definition outer).name)) ∧
        Relation.TransGen circuit.Instantiates id id ∧ id ∈ chain ∧ chain.Nodup ∧ chain.head? = some root ∧
          (chain ++ [id]).IsChain circuit.Instantiates := by
  refine ⟨fun depth deep => ?_, reachableIff, fun order ok => ?_, fun fault failed => ?_⟩
  · exact visitDeeper (.start root) deep (Nat.lt_succ_self _) []
  · have ordered := reachableOrdered ok
    refine ⟨ordered.nodup.1, fun id => reachableMem ok, fun id mem child step => ?_, reachableLast ok⟩
    exact (ordered.earlier id mem child (partsMem.mpr step)).resolve_left List.not_mem_nil
  · cases visitRefuses (.start root) (Nat.lt_succ_self _) failed with
    | @unknown id name needs mem missing =>
      refine .inl ⟨name, id, rfl, needs, mem, fun definition listed same => ?_⟩
      exact absurd (decide_eq_true same) (by simpa using List.findIdx?_eq_none_iff.mp missing definition listed)
    | @recursive id chain descent again =>
      refine .inr ⟨id, chain, rfl, descent.contains id again, again, descent.distinct, ?_, descent.steps⟩
      rw [← descent.starts, List.head?_append_of_ne_nil _ (List.ne_nil_of_mem again)]

end CircuitSim.Circuit
