import CircuitSim.Flat.Schedule
import Mathlib.Data.List.Perm.Subperm
import Mathlib.Data.List.Range
import Mathlib.Tactic.Common

/-! A schedule is a complete order: it holds every node once, each behind the makers of what it reads. -/
namespace CircuitSim.Schedule

inductive InOrder (needs : Nat → List Nat) : List Nat → List Nat → Prop
  | nil (done : List Nat) : InOrder needs done []
  | cons {done rest : List Nat} {i : Nat} (fresh : i ∉ done) (made : ∀ j ∈ needs i, j ∈ done)
      (behind : InOrder needs (done ++ [i]) rest) : InOrder needs done (i :: rest)

namespace InOrder

variable {needs : Nat → List Nat} {done rest : List Nat} {i : Nat}

theorem snoc (before : InOrder needs done rest) (fresh : i ∉ done ++ rest)
    (made : ∀ j ∈ needs i, j ∈ done ++ rest) : InOrder needs done (rest ++ [i]) := by
  induction before with
  | nil done =>
    rw [List.append_nil] at fresh made
    exact .cons fresh made (.nil _)
  | cons fresh' made' behind ih =>
    rw [← List.singleton_append, ← List.append_assoc] at fresh made
    exact .cons fresh' made' (ih fresh made)

theorem nodup (order : InOrder needs done rest) : rest.Nodup ∧ ∀ k ∈ rest, k ∉ done := by
  induction order with
  | nil => exact ⟨List.nodup_nil, nofun⟩
  | @cons done rest i fresh made behind ih =>
    obtain ⟨distinct, apart⟩ := ih
    have own : i ∉ rest := fun mem => apart i mem (List.mem_append_right done (List.mem_singleton_self i))
    refine ⟨List.nodup_cons.mpr ⟨own, distinct⟩, fun k mem => ?_⟩
    rcases List.mem_cons.mp mem with rfl | later
    · exact fresh
    · exact fun before => apart k later (List.mem_append_left _ before)

theorem made (order : InOrder needs done rest) : ∀ k ∈ rest, ∀ j ∈ needs k, j ∈ done ++ rest := by
  induction order with
  | nil => exact nofun
  | @cons done rest i fresh made behind ih =>
    intro k mem j needed
    rcases List.mem_cons.mp mem with rfl | later
    · exact List.mem_append_left _ (made j needed)
    · simpa using ih k later j needed

theorem madeBefore {before after : List Nat} (order : InOrder needs done (before ++ i :: after)) :
    ∀ j ∈ needs i, j ∈ done ++ before := by
  induction before generalizing done with
  | nil =>
    cases order with
    | cons _ made _ =>
      rw [List.append_nil]
      exact made
  | cons first before ih =>
    cases order with
    | cons _ _ behind =>
      intro j needed
      simpa using ih behind j needed

end InOrder

section Drain

variable (table : Array (List Nat))

structure Progress (queue order : List Nat) : Prop where
  ordered : InOrder (table.getD · []) [] order
  distinct : queue.Nodup
  waiting : ∀ i ∈ queue, i ∉ order ∧ i < table.size ∧ ∀ j ∈ table.getD i [], j ∈ order
  known : ∀ i ∈ order, i < table.size

variable {table}

theorem releasedMem {order : List Nat} {i user : Nat} : user ∈ released table order i ↔
    user < table.size ∧ i ∈ table.getD user [] ∧ ∀ j ∈ table.getD user [], j ∈ order := by
  simp [released]

theorem readyMem {i : Nat} : i ∈ ready table ↔ i < table.size ∧ table.getD i [] = [] := by
  simp [ready]

theorem progressStart : Progress table (ready table) [] := by
  refine ⟨.nil [], List.nodup_range.filter _, fun i mem => ?_, nofun⟩
  obtain ⟨known, none⟩ := readyMem.mp mem
  exact ⟨List.not_mem_nil, known, by simp [none]⟩

theorem progressStep {i : Nat} {queue order : List Nat} (progress : Progress table (i :: queue) order) :
    Progress table (queue ++ released table (order ++ [i]) i) (order ++ [i]) := by
  obtain ⟨ordered, distinct, waiting, known⟩ := progress
  obtain ⟨first, rest⟩ := List.nodup_cons.mp distinct
  obtain ⟨fresh, inside, made⟩ := waiting i List.mem_cons_self
  have unready : ∀ user, i ∈ table.getD user [] → user ∉ i :: queue ∧ user ∉ order := by
    intro user needed
    have blocked : user ∉ i :: queue := fun mem => fresh ((waiting user mem).2.2 i needed)
    refine ⟨blocked, fun mem => ?_⟩
    exact fresh (ordered.made user mem i needed)
  refine ⟨ordered.snoc fresh made, ?_, ?_, ?_⟩
  · refine List.nodup_append.mpr ⟨rest, List.nodup_range.filter _, ?_⟩
    rintro user mem _ mem' rfl
    exact (unready user (releasedMem.mp mem').2.1).1 (List.mem_cons_of_mem i mem)
  · intro user mem
    rcases List.mem_append.mp mem with waits | joins
    · obtain ⟨apart, known', makers⟩ := waiting user (List.mem_cons_of_mem i waits)
      have other : user ≠ i := fun same => first (same ▸ waits)
      refine ⟨by simp [apart, other], known', fun j needed => List.mem_append_left _ (makers j needed)⟩
    · obtain ⟨known', needed, makers⟩ := releasedMem.mp joins
      obtain ⟨outside, apart⟩ := unready user needed
      have other : user ≠ i := fun same => outside (same ▸ List.mem_cons_self)
      exact ⟨by simp [apart, other], known', makers⟩
  · intro user mem
    rcases List.mem_append.mp mem with before | last
    · exact known user before
    · exact List.mem_singleton.mp last ▸ inside

theorem drainProgress {steps : Nat} {queue order : List Nat} (progress : Progress table queue order) :
    ∃ queue', Progress table queue' (drain table steps queue order) := by
  induction steps generalizing queue order with
  | zero => exact ⟨queue, progress⟩
  | succ steps ih =>
    cases queue with
    | nil => exact ⟨[], progress⟩
    | cons i queue => exact ih (progressStep progress)

end Drain

end CircuitSim.Schedule

namespace CircuitSim
open Schedule

theorem Schedule.completeIff {count : Nat} {node : Node} : complete count node = true ↔
    ∀ k ∈ node.primitive.reads, ∃ source, node.inputs[k]? = some source ∧ ∀ i, source = .node i → i < count := by
  rw [complete, List.all_eq_true]
  refine forall₂_congr fun k _ => ?_
  cases found : node.inputs[k]? with
  | none => simp
  | some source =>
    cases source with
    | input j => simp
    | node i => simp

theorem scheduleComplete {nodes : List Node} {order : List Nat} (ok : schedule nodes = .ok order) :
    order.Perm (List.range nodes.length) ∧ InOrder (fun i => makers (nodes.getD i default)) [] order := by
  unfold schedule at ok
  simp only at ok
  split at ok
  case isFalse => cases ok
  split at ok
  case isTrue => cases ok
  case isFalse full =>
    cases ok
    have size : ((nodes.map makers).toArray).size = nodes.length := by simp
    have needs : (fun i => makers (nodes.getD i default)) = fun i => (nodes.map makers).toArray.getD i [] := by
      funext i
      by_cases inside : i < nodes.length
      · simp [inside]
      · simp only [List.getD_eq_getElem?_getD, List.getElem?_eq_none (Nat.not_lt.mp inside), Option.getD_none]
        simp [inside]
        rfl
    obtain ⟨queue, ordered, -, -, known⟩ :=
      @drainProgress (nodes.map makers).toArray nodes.length _ _ progressStart
    rw [needs]
    refine ⟨?_, ordered⟩
    -- as many distinct numbers as there are nodes, all of them known: none is missing
    have subset := List.subperm_of_subset ordered.nodup.1 fun i mem => List.mem_range.mpr (size ▸ known i mem)
    exact subset.perm_of_length_le (by simpa using full)

end CircuitSim
