import CircuitSim.Proofs.Schedule
import Mathlib.Data.Fintype.EquivFin
import Mathlib.Logic.Relation

/-! An order of things that need one another exists exactly when none of them needs itself, be it through others. Main
statement: `scheduleIff`. -/
namespace CircuitSim.Schedule

namespace InOrder

variable {needs : Nat → List Nat} {done rest : List Nat}

theorem earlier (order : InOrder needs done rest) : ∀ i ∈ rest, ∀ j ∈ needs i,
    j ∈ done ∨ rest.idxOf j < rest.idxOf i := by
  induction order with
  | nil => exact nofun
  | @cons done rest first fresh made behind ih =>
    intro i mem j needed
    by_cases own : i = first
    · exact .inl (made j (own ▸ needed))
    have later := (List.mem_cons.mp mem).resolve_left own
    rw [List.idxOf_cons_ne _ (Ne.symm own)]
    by_cases head : j = first
    · rw [head, List.idxOf_cons_self]
      exact .inr (Nat.succ_pos _)
    rw [List.idxOf_cons_ne _ (Ne.symm head)]
    rcases ih i later j needed with before | less
    · exact .inl ((List.mem_append.mp before).resolve_right fun last => head (List.mem_singleton.mp last))
    · exact .inr (Nat.succ_lt_succ less)

theorem precedes (order : InOrder needs [] rest) {i j : Nat} (mem : i ∈ rest)
    (chain : Relation.TransGen (fun j i => j ∈ needs i) j i) : j ∈ rest ∧ rest.idxOf j < rest.idxOf i := by
  have step : ∀ {i j : Nat}, i ∈ rest → j ∈ needs i → j ∈ rest ∧ rest.idxOf j < rest.idxOf i := fun mem needed =>
    ⟨order.made _ mem _ needed, (order.earlier _ mem _ needed).resolve_left List.not_mem_nil⟩
  induction chain using Relation.TransGen.head_induction_on with
  | single needed => exact step mem needed
  | head needed _ ih =>
    obtain ⟨inside, less⟩ := step ih.1 needed
    exact ⟨inside, less.trans ih.2⟩

theorem acyclic (order : InOrder needs [] rest) {i : Nat} (mem : i ∈ rest) :
    ¬Relation.TransGen (fun j i => j ∈ needs i) i i := fun loop => Nat.lt_irrefl _ (order.precedes mem loop).2

end InOrder

section Drain

variable {table : Array (List Nat)}

def Prompt (table : Array (List Nat)) (queue order : List Nat) : Prop :=
  ∀ i < table.size, i ∉ order → (∀ j ∈ table.getD i [], j ∈ order) → i ∈ queue

theorem promptStart : Prompt table (ready table) [] := by
  intro i inside _ made
  refine readyMem.mpr ⟨inside, List.eq_nil_iff_forall_not_mem.mpr fun j needed => ?_⟩
  exact List.not_mem_nil (made j needed)

theorem promptStep {i : Nat} {queue order : List Nat} (prompt : Prompt table (i :: queue) order) :
    Prompt table (queue ++ released table (order ++ [i]) i) (order ++ [i]) := by
  intro user inside fresh made
  by_cases waits : i ∈ table.getD user []
  · exact List.mem_append_right _ (releasedMem.mpr ⟨inside, waits, made⟩)
  have before : ∀ j ∈ table.getD user [], j ∈ order := fun j needed =>
    (List.mem_append.mp (made j needed)).resolve_right fun last => waits (List.mem_singleton.mp last ▸ needed)
  have apart : user ≠ i := fun same => fresh (List.mem_append_right order (List.mem_singleton.mpr same))
  have queued := prompt user inside (fun mem => fresh (List.mem_append_left _ mem)) before
  exact List.mem_append_left _ ((List.mem_cons.mp queued).resolve_left apart)

theorem drainStuck {steps : Nat} {queue order : List Nat} (progress : Progress table queue order)
    (prompt : Prompt table queue order) (enough : table.size ≤ steps + order.length) :
    ∀ i < table.size, i ∉ drain table steps queue order →
      ∃ j ∈ table.getD i [], j ∉ drain table steps queue order := by
  induction steps generalizing queue order with
  | zero =>
    intro i inside missing
    have subset := List.subperm_of_subset progress.ordered.nodup.1 fun k mem => List.mem_range.mpr (progress.known k mem)
    have full := subset.perm_of_length_le (by simpa using enough)
    exact absurd (full.mem_iff.mpr (List.mem_range.mpr inside)) missing
  | succ steps ih =>
    cases queue with
    | nil =>
      intro i inside missing
      by_contra none
      refine List.not_mem_nil (prompt i inside missing fun j needed => ?_)
      by_contra apart
      exact none ⟨j, needed, apart⟩
    | cons next queue =>
      refine ih (progressStep progress) (promptStep prompt) ?_
      rw [List.length_append, List.length_singleton]
      omega

end Drain

theorem stuckBehind {needs : Nat → List Nat} {count : Nat} {order : List Nat}
    (known : ∀ i < count, ∀ j ∈ needs i, j < count)
    (stuck : ∀ i < count, i ∉ order → ∃ j ∈ needs i, j ∉ order) {i : Nat} (inside : i < count) (missing : i ∉ order) :
    ∃ j, Relation.TransGen (fun j i => j ∈ needs i) j j ∧ Relation.ReflTransGen (fun j i => j ∈ needs i) j i := by
  by_contra clear
  rw [not_exists] at clear
  -- in front of `i` the relation has no loop, so an induction along it is possible
  let before (a b : Fin count) : Prop := Relation.TransGen (fun j i => j ∈ needs i) a.val b.val ∧
    Relation.ReflTransGen (fun j i => j ∈ needs i) b.val i
  have trans : IsTrans (Fin count) before := ⟨fun _ _ _ first second => ⟨first.1.trans second.1, second.2⟩⟩
  have irrefl : Std.Irrefl before := ⟨fun j loop => clear j ⟨loop.1, loop.2⟩⟩
  have wellFounded : WellFounded before := Finite.wellFounded_of_trans_of_irrefl before
  suffices all : ∀ j : Fin count, Relation.ReflTransGen (fun j i => j ∈ needs i) j.val i → j.val ∈ order from
    missing (all ⟨i, inside⟩ .refl)
  intro j
  induction j using wellFounded.induction with
  | _ j ih =>
    intro leads
    by_contra absent
    obtain ⟨k, needed, apart⟩ := stuck j j.isLt absent
    exact apart (ih ⟨k, known j j.isLt k needed⟩ ⟨.single needed, leads⟩ (.head needed leads))

end CircuitSim.Schedule

namespace CircuitSim
open Schedule

def Node.Feeds (nodes : List Node) (j i : Nat) : Prop := j ∈ makers (nodes.getD i default)

theorem Schedule.makersTable (nodes : List Node) (i : Nat) :
    (nodes.map makers).toArray.getD i [] = makers (nodes.getD i default) := by
  by_cases inside : i < nodes.length
  · simp [inside]
  · rw [List.getD_eq_getElem?_getD, List.getElem?_eq_none (Nat.not_lt.mp inside), Option.getD_none]
    simp [inside]
    rfl

theorem Node.Feeds.inside {nodes : List Node} {j i : Nat} (feeds : Node.Feeds nodes j i) : i < nodes.length := by
  by_contra outside
  rw [Feeds, List.getD_eq_getElem?_getD, List.getElem?_eq_none (Nat.not_lt.mp outside), Option.getD_none] at feeds
  exact List.not_mem_nil feeds

theorem Node.Feeds.known {nodes : List Node} (whole : ∀ node ∈ nodes, complete nodes.length node = true) {j i : Nat}
    (feeds : Node.Feeds nodes j i) : j < nodes.length := by
  have mem : nodes.getD i default ∈ nodes := by
    rw [List.getD_eq_getElem?_getD, List.getElem?_eq_getElem feeds.inside, Option.getD_some]
    exact List.getElem_mem feeds.inside
  obtain ⟨k, read, source⟩ := List.mem_filterMap.mp feeds
  obtain ⟨found, here, inside⟩ := completeIff.mp (whole _ mem) k read
  rw [here] at source
  cases found with
  | input => cases source
  | node => exact inside _ (congrArg Source.node (Option.some.inj source))

/-- Complete nodes can be scheduled exactly when no node reads, through others or at once, from itself. -/
theorem scheduleIff {nodes : List Node} (whole : ∀ node ∈ nodes, complete nodes.length node = true) :
    (∃ order, schedule nodes = .ok order) ↔ ∀ i, ¬Relation.TransGen (Node.Feeds nodes) i i := by
  constructor
  · rintro ⟨order, ok⟩ i loop
    obtain ⟨perm, ordered⟩ := scheduleComplete ok
    obtain ⟨_, -, last⟩ := Relation.TransGen.tail'_iff.mp loop
    exact ordered.acyclic (perm.mem_iff.mpr (List.mem_range.mpr last.inside)) loop
  · intro acyclic
    let table := (nodes.map makers).toArray
    have size : table.size = nodes.length := by simp [table]
    have stuck := @drainStuck table nodes.length _ _ progressStart promptStart (by simp [size])
    simp only [size, table, makersTable] at stuck
    have all : ∀ i < nodes.length, i ∈ drain table nodes.length (ready table) [] := by
      intro i inside
      by_contra missing
      obtain ⟨j, loop, -⟩ := stuckBehind (fun i _ j needed => Node.Feeds.known whole needed) stuck inside missing
      exact acyclic j loop
    have subset := List.subperm_of_subset List.nodup_range fun i mem => all i (List.mem_range.mp mem)
    have full : ¬(drain table nodes.length (ready table) []).length < nodes.length := by
      simpa using subset.length_le
    exact ⟨_, by rw [schedule, if_pos (List.all_eq_true.mpr whole)]; exact if_neg full⟩

end CircuitSim
