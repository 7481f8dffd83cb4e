import CircuitSim.Proofs.Cycle

/-! The schedule by counting: each node counts the inputs that it still misses, and each node that is taken lowers the
counts of those that read from it. No count is ever lowered below zero, the order is that of the queue, and the nodes
left over are those on a cycle or behind one. Main statement: `scheduleDiagnoses`. -/
namespace CircuitSim.Schedule

def users (table : Array (List Nat)) (i : Nat) : List Nat :=
  (List.range table.size).flatMap fun user => List.replicate ((table.getD user []).count i) user

structure Countdown where
  missing : Nat → Nat
  queue : List Nat
  order : List Nat

namespace Countdown

def start (table : Array (List Nat)) : Countdown where
  missing i := (table.getD i []).length
  queue := (List.range table.size).filter fun i => (table.getD i []).length = 0
  order := []

def supply (state : Countdown) (user : Nat) : Option Countdown :=
  match state.missing user with
  | 0 => none
  | missing + 1 => some { state with
      missing := Function.update state.missing user missing
      queue := state.queue ++ if missing = 0 then [user] else [] }

/-- Takes nodes until the queue is empty. There is no answer if a count would fall below zero or the steps run out. -/
def drain (table : Array (List Nat)) : Nat → Countdown → Option Countdown
  | _, ⟨missing, [], order⟩ => some ⟨missing, [], order⟩
  | 0, ⟨_, _ :: _, _⟩ => none
  | steps + 1, ⟨missing, i :: queue, order⟩ =>
    ((users table i).foldlM supply ⟨missing, queue, order ++ [i]⟩).bind (drain table steps)

end Countdown

def counted (nodes : List Node) : Option (Except Fault (List Nat)) :=
  if nodes.all (complete nodes.length) then
    let table := (nodes.map makers).toArray
    (Countdown.drain table nodes.length (.start table)).map fun last =>
      if last.order.length < nodes.length then
        .error (.combinationalCycle (((List.range nodes.length).filter fun i => 0 < last.missing i).map fun i =>
          ".".intercalate (nodes.getD i default).path))
      else .ok last.order
  else some (.error (.trap .missing))

namespace Countdown

variable {missing : Nat → Nat} {queue order : List Nat}

theorem supplyAgain {user count : Nat} (enough : count ≤ missing user) :
    (List.replicate count user).foldlM supply ⟨missing, queue, order⟩ =
      some ⟨Function.update missing user (missing user - count),
        queue ++ if 0 < count ∧ missing user = count then [user] else [], order⟩ := by
  induction count generalizing missing queue with
  | zero => simp
  | succ count ih =>
    obtain ⟨left, most⟩ : ∃ left, missing user = left + 1 := ⟨missing user - 1, by omega⟩
    have first : supply ⟨missing, queue, order⟩ user =
        some ⟨Function.update missing user left, queue ++ if left = 0 then [user] else [], order⟩ := by
      simp only [supply, most]
    have after : Function.update missing user left user = left := Function.update_self user left missing
    rw [List.replicate_succ, List.foldlM_cons, first, Option.bind_eq_bind, Option.bind_some, ih (by omega), after,
      most, Nat.add_sub_add_right, List.append_assoc, Function.update_idem]
    congr 3
    by_cases none : count = 0
    · simp [none]
    · have more : left ≠ 0 := by omega
      simp [more, Nat.pos_of_ne_zero none]

theorem supplyAll {count : Nat → Nat} {list : List Nat} (distinct : list.Nodup)
    (enough : ∀ user ∈ list, count user ≤ missing user) :
    (list.flatMap fun user => List.replicate (count user) user).foldlM supply ⟨missing, queue, order⟩ =
      some ⟨fun user => if user ∈ list then missing user - count user else missing user,
        queue ++ list.filter fun user => 0 < count user ∧ missing user = count user, order⟩ := by
  induction list generalizing missing queue with
  | nil => simp
  | cons user rest ih =>
    obtain ⟨fresh, distinct⟩ := List.nodup_cons.mp distinct
    have kept : ∀ other ∈ rest, Function.update missing user (missing user - count user) other = missing other := by
      intro other mem
      have apart : other ≠ user := fun same => fresh (same ▸ mem)
      exact Function.update_of_ne apart _ _
    have same : (rest.filter fun other => 0 < count other ∧
          Function.update missing user (missing user - count user) other = count other) =
        rest.filter fun other => 0 < count other ∧ missing other = count other :=
      List.filter_congr fun other mem => by rw [kept other mem]
    rw [List.flatMap_cons, List.foldlM_append, supplyAgain (enough user List.mem_cons_self), Option.bind_eq_bind,
      Option.bind_some, ih distinct fun other mem =>
        (enough other (List.mem_cons_of_mem user mem)).trans_eq (kept other mem).symm, same, List.append_assoc]
    congr 2
    · funext other
      by_cases own : other = user
      · subst own
        simp [fresh]
      · simp [own]
    · rw [List.filter_cons]
      split <;> simp_all

variable {table : Array (List Nat)}

def Counts (table : Array (List Nat)) (missing : Nat → Nat) (order : List Nat) : Prop :=
  ∀ i, missing i = (table.getD i []).countP (· ∉ order)

theorem startCounts : Counts table (start table).missing [] := by
  intro i
  simp [start]

theorem countSplit {order : List Nat} {i : Nat} (fresh : i ∉ order) (list : List Nat) :
    list.countP (· ∉ order) = list.count i + list.countP (· ∉ order ++ [i]) := by
  induction list with
  | nil => rfl
  | cons j rest ih =>
    rw [List.countP_cons, List.countP_cons, List.count_cons, ih]
    by_cases own : j = i
    · simp only [own, fresh, List.mem_append, List.mem_singleton]
      simp
      omega
    · by_cases done : j ∈ order
      · simp [own, done]
      · simp [own, done]
        omega

theorem usersSupplied {i : Nat} (counts : Counts table missing order) (fresh : i ∉ order) :
    ∃ missing', Counts table missing' (order ++ [i]) ∧
      (users table i).foldlM supply ⟨missing, queue, order ++ [i]⟩ =
        some ⟨missing', queue ++ released table (order ++ [i]) i, order ++ [i]⟩ := by
  have split : ∀ user, missing user = (table.getD user []).count i + (table.getD user []).countP (· ∉ order ++ [i]) :=
    fun user => (counts user).trans (countSplit fresh _)
  have ready : (fun user => decide (0 < (table.getD user []).count i ∧ missing user = (table.getD user []).count i)) =
      fun user => (table.getD user []).contains i && (table.getD user []).all (order ++ [i]).contains := by
    funext user
    rw [Bool.eq_iff_iff, decide_eq_true_iff, split user]
    simp [List.count_pos_iff, or_iff_not_imp_left]
  refine ⟨fun user => if user ∈ List.range table.size then missing user - (table.getD user []).count i
    else missing user, fun user => ?_, ?_⟩
  · have own := split user
    simp only
    by_cases inside : user < table.size
    · rw [if_pos (List.mem_range.mpr inside)]
      omega
    · have none : table.getD user [] = [] := by simp [inside]
      rw [if_neg fun mem => inside (List.mem_range.mp mem)]
      simpa [none] using own
  · rw [users, supplyAll List.nodup_range fun user _ => Nat.le.intro (split user).symm, ready]
    rfl

theorem drainCounts {steps : Nat} (counts : Counts table missing order) (progress : Progress table queue order)
    (enough : table.size ≤ steps + order.length) :
    ∃ missing', Counts table missing' (Schedule.drain table steps queue order) ∧
      drain table steps ⟨missing, queue, order⟩ = some ⟨missing', [], Schedule.drain table steps queue order⟩ := by
  induction steps generalizing missing queue order with
  | zero =>
    cases queue with
    | nil => exact ⟨missing, counts, rfl⟩
    | cons i queue =>
      obtain ⟨fresh, inside, -⟩ := progress.waiting i List.mem_cons_self
      have subset := List.subperm_of_subset progress.ordered.nodup.1 fun k mem =>
        List.mem_range.mpr (progress.known k mem)
      have full := subset.perm_of_length_le (by simpa using enough)
      exact absurd (full.mem_iff.mpr (List.mem_range.mpr inside)) fresh
  | succ steps ih =>
    cases queue with
    | nil => exact ⟨missing, counts, rfl⟩
    | cons i queue =>
      obtain ⟨missing', counts', supplied⟩ := @usersSupplied missing queue order table i counts
        (progress.waiting i List.mem_cons_self).1
      have more : table.size ≤ steps + (order ++ [i]).length := by
        rw [List.length_append, List.length_singleton]
        omega
      obtain ⟨last, right, drained⟩ := ih counts' (progressStep progress) more
      exact ⟨last, right, by rw [drain, supplied, Option.bind_some, drained]; rfl⟩

end Countdown

end CircuitSim.Schedule

namespace CircuitSim
open Schedule

section Nodes

variable (nodes : List Node)

def Schedule.taken : List Nat := drain (nodes.map makers).toArray nodes.length (ready (nodes.map makers).toArray) []

def Schedule.left : List Nat := (List.range nodes.length).filter (· ∉ taken nodes)

def Schedule.place (i : Nat) : String := ".".intercalate (nodes.getD i default).path

theorem Schedule.drained : InOrder (fun i => makers (nodes.getD i default)) [] (taken nodes) ∧
    (∀ i ∈ taken nodes, i < nodes.length) ∧
    ∀ i < nodes.length, i ∉ taken nodes → ∃ j ∈ makers (nodes.getD i default), j ∉ taken nodes := by
  have size : (nodes.map makers).toArray.size = nodes.length := by simp
  obtain ⟨queue, ordered, -, -, known⟩ := @drainProgress (nodes.map makers).toArray nodes.length _ _ progressStart
  have stuck := @drainStuck (nodes.map makers).toArray nodes.length _ _ progressStart promptStart (by simp)
  simp only [size, makersTable] at stuck ordered known
  exact ⟨ordered, known, stuck⟩

theorem scheduleTaken : schedule nodes = if nodes.all (complete nodes.length) then
      if (taken nodes).length < nodes.length then .error (.combinationalCycle ((left nodes).map (place nodes)))
      else .ok (taken nodes)
    else .error (.trap .missing) := by
  have numbered : nodes.zipIdx = (List.range nodes.length).map fun i => (nodes.getD i default, i) := by
    refine List.ext_getElem? fun i => ?_
    rw [List.getElem?_zipIdx, List.getElem?_map]
    by_cases inside : i < nodes.length
    · simp [inside]
    · simp [inside]
  have named : (nodes.zipIdx.filterMap fun entry =>
      if (taken nodes).contains entry.2 then none else some (".".intercalate entry.1.path)) =
        (left nodes).map (place nodes) := by
    rw [numbered, List.filterMap_map, left, ← List.filterMap_eq_map, List.filterMap_filter]
    refine List.filterMap_congr fun i _ => ?_
    simp [place]
  rw [← named]
  rfl

theorem Schedule.missLeft {missing : Nat → Nat}
    (counts : Countdown.Counts (nodes.map makers).toArray missing (taken nodes)) :
    ((List.range nodes.length).filter fun i => 0 < missing i) = left nodes := by
  obtain ⟨ordered, -, stuck⟩ := drained nodes
  refine List.filter_congr fun i mem => ?_
  have inside := List.mem_range.mp mem
  have waits : 0 < missing i ↔ i ∉ taken nodes := by
    rw [counts i, makersTable, List.countP_pos_iff]
    constructor
    · rintro ⟨j, needed, absent⟩ done
      exact of_decide_eq_true absent (ordered.made i done j needed)
    · intro absent
      obtain ⟨j, needed, apart⟩ := stuck i inside absent
      exact ⟨j, needed, decide_eq_true apart⟩
  exact decide_eq_decide.mpr waits

theorem countedSchedule : counted nodes = some (schedule nodes) := by
  let table := (nodes.map makers).toArray
  have start : Countdown.start table = ⟨fun i => (table.getD i []).length, ready table, []⟩ := by
    have waits : ((List.range table.size).filter fun i => (table.getD i []).length = 0) = ready table :=
      List.filter_congr fun i _ => by rw [Bool.eq_iff_iff]; simp
    rw [Countdown.start, waits]
  obtain ⟨missing, counts, drained⟩ := @Countdown.drainCounts (fun i => (table.getD i []).length) _ [] table nodes.length
    Countdown.startCounts progressStart (by simp [table])
  have counting : Countdown.drain table nodes.length (Countdown.start table) = some ⟨missing, [], taken nodes⟩ :=
    start ▸ drained
  rw [counted, scheduleTaken]
  split
  · dsimp only
    rw [counting, Option.map_some, missLeft nodes counts]
    split
    · rfl
    · rfl
  · rfl

theorem Schedule.leftIff (whole : ∀ node ∈ nodes, complete nodes.length node = true) {i : Nat} : i ∈ left nodes ↔
    ∃ j, Relation.TransGen (Node.Feeds nodes) j j ∧ Relation.ReflTransGen (Node.Feeds nodes) j i := by
  obtain ⟨ordered, -, stuck⟩ := drained nodes
  rw [left, List.mem_filter, List.mem_range, decide_eq_true_iff]
  constructor
  · rintro ⟨inside, missing⟩
    exact stuckBehind (fun _ _ _ needed => Node.Feeds.known whole needed) stuck inside missing
  · rintro ⟨j, loop, leads⟩
    obtain ⟨_, -, last⟩ := Relation.TransGen.tail'_iff.mp (loop.trans_left leads)
    refine ⟨last.inside, fun done => ?_⟩
    have first := (ordered.precedes done (loop.trans_left leads)).1
    exact ordered.acyclic first loop

end Nodes

/-- Nodes can be scheduled exactly when each has the inputs that it reads, from nodes of the list, and none of them
reads, at once or through others, from itself. A schedule holds every node once, behind all that it reads from. For
complete nodes the fault names, in node order and once each, the nodes on a cycle and those that a cycle leads to; there
is one at least. Others stop the program. Counting down what each node misses comes to the same, and no count falls
below zero. -/
theorem scheduleDiagnoses (nodes : List Node) :
    counted nodes = some (schedule nodes) ∧
    ((∃ order, schedule nodes = .ok order) ↔ (∀ node ∈ nodes, complete nodes.length node = true) ∧
      ∀ i, ¬Relation.TransGen (Node.Feeds nodes) i i) ∧
    (∀ order, schedule nodes = .ok order → order.Perm (List.range nodes.length) ∧
      ∀ i j, Node.Feeds nodes j i → order.idxOf j < order.idxOf i) ∧
    ((∀ node ∈ nodes, complete nodes.length node = true) → (∃ i, Relation.TransGen (Node.Feeds nodes) i i) →
      ∃ stuck : List Nat, schedule nodes = .error (.combinationalCycle (stuck.map (place nodes))) ∧ stuck ≠ [] ∧
        stuck.Pairwise (· < ·) ∧
        ∀ i, i ∈ stuck ↔ ∃ j, Relation.TransGen (Node.Feeds nodes) j j ∧ Relation.ReflTransGen (Node.Feeds nodes) j i) ∧
    ((¬∀ node ∈ nodes, complete nodes.length node = true) → schedule nodes = .error (.trap .missing)) := by
  have broken : (¬∀ node ∈ nodes, complete nodes.length node = true) → schedule nodes = .error (.trap .missing) := by
    intro broken
    rw [scheduleTaken, if_neg fun all => broken (List.all_eq_true.mp all)]
  refine ⟨countedSchedule nodes, ⟨fun ok => ?_, fun ⟨whole, acyclic⟩ => (scheduleIff whole).mpr acyclic⟩,
    fun order ok => ?_, fun whole cyclic => ?_, broken⟩
  · have whole : ∀ node ∈ nodes, complete nodes.length node = true := by
      by_contra lacking
      obtain ⟨order, made⟩ := ok
      cases made.symm.trans (broken lacking)
    exact ⟨whole, (scheduleIff whole).mp ok⟩
  · obtain ⟨perm, ordered⟩ := scheduleComplete ok
    refine ⟨perm, fun i j needed => ?_⟩
    exact (ordered.precedes (perm.mem_iff.mpr (List.mem_range.mpr needed.inside)) (.single needed)).2
  · obtain ⟨i, loop⟩ := cyclic
    have refused : ¬∃ order, schedule nodes = .ok order := fun ok => (scheduleIff whole).mp ok i loop
    refine ⟨left nodes, ?_, List.ne_nil_of_mem ((leftIff nodes whole).mpr ⟨i, loop, .refl⟩),
      List.pairwise_lt_range.filter _, fun i => leftIff nodes whole⟩
    rw [scheduleTaken, if_pos (List.all_eq_true.mpr whole)] at refused ⊢
    split at refused
    · rename_i short
      exact if_pos short
    · exact absurd ⟨_, rfl⟩ refused

theorem adderLoop :
    let adder (name : String) (inputs : List Source) : Node := ⟨[name], .binary .add 4, inputs, 0, 0⟩
    let nodes : List Node := [⟨["one"], .const 4 1, [], 0, 0⟩, adder "loop" [.node 1, .node 0],
      adder "behind" [.node 1, .node 1], adder "twice" [.node 0, .node 0]]
    counted nodes = some (.error (.combinationalCycle ["loop", "behind"])) ∧
      ∃ stuck : List Nat, schedule nodes = .error (.combinationalCycle (stuck.map (place nodes))) ∧ 2 ∈ stuck := by
  intro adder nodes
  obtain ⟨counts, -, -, diagnosed, -⟩ := scheduleDiagnoses nodes
  have own : Node.Feeds nodes 1 1 := (by decide : 1 ∈ makers (nodes.getD 1 default))
  have next : Node.Feeds nodes 1 2 := (by decide : 1 ∈ makers (nodes.getD 2 default))
  obtain ⟨stuck, fault, -, -, exactly⟩ := diagnosed (by decide) ⟨1, .single own⟩
  exact ⟨counts.trans (congrArg some (by decide)), stuck, fault, (exactly 2).mpr ⟨1, .single own, .single next⟩⟩

end CircuitSim
