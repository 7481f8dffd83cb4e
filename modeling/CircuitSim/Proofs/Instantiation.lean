import CircuitSim.Proofs.Cycle
import CircuitSim.Proofs.Reach

/-! Which definitions a definition needs. The search for them succeeds exactly when all of them exist and none contains
itself, and it finds those that can be reached and no others. Main statements: `reachableMem`, `reachableIff`. -/
namespace CircuitSim.Circuit
open Schedule (InOrder)

def Instantiates (circuit : Circuit) (id child : Nat) : Prop :=
  ∃ name ∈ (circuit.definition id).children, circuit.lookup name = .ok child

abbrev Needs (circuit : Circuit) (root id : Nat) : Prop := Relation.ReflTransGen circuit.Instantiates root id

def parts (circuit : Circuit) (id : Nat) : List Nat := (circuit.definition id).children.filterMap circuit.find?

variable {circuit : Circuit}

theorem lookupFind {name : String} {id : Nat} : circuit.lookup name = .ok id ↔ circuit.find? name = some id := by
  unfold lookup
  cases circuit.find? name with
  | none => exact ⟨nofun, nofun⟩
  | some found => simp

theorem partsMem {id child : Nat} : child ∈ circuit.parts id ↔ circuit.Instantiates id child := by
  rw [parts, List.mem_filterMap]
  exact exists_congr fun name => and_congr_right fun _ => lookupFind.symm

theorem childMem {inst : Instance} {id : Nat} {name : String} (mem : inst ∈ (circuit.definition id).instances)
    (part : inst.part = .definition name) : name ∈ (circuit.definition id).children :=
  List.mem_filterMap.mpr ⟨inst, mem, by rw [part]⟩

theorem childInstance {id : Nat} {name : String} (mem : name ∈ (circuit.definition id).children) :
    ∃ inst ∈ (circuit.definition id).instances, inst.part = .definition name := by
  obtain ⟨inst, listed, part⟩ := List.mem_filterMap.mp mem
  refine ⟨inst, listed, ?_⟩
  cases shape : inst.part with
  | primitive kind args => simp [shape] at part
  | definition other =>
    rw [shape] at part
    exact congrArg Part.definition (Option.some.inj part)

theorem needsWithin {root id : Nat} : circuit.Needs root id ↔ ∃ path, circuit.Within root path id := by
  constructor
  · intro needs
    induction needs with
    | refl => exact ⟨[], .root⟩
    | tail _ step ih =>
      obtain ⟨path, within⟩ := ih
      obtain ⟨name, child, found⟩ := step
      obtain ⟨inst, mem, part⟩ := childInstance child
      exact ⟨_, within.inside mem part found⟩
  · rintro ⟨path, within⟩
    induction within with
    | root => exact .refl
    | inside outer mem part found ih => exact ih.tail ⟨_, childMem mem part, found⟩

theorem instanceKnown {inst : Instance} {id : Nat} (mem : inst ∈ (circuit.definition id).instances) : id < circuit.size := by
  by_contra outside
  rw [definition, List.getD_eq_getElem?_getD, List.getElem?_eq_none (Nat.not_lt.mp outside)] at mem
  exact List.not_mem_nil mem

theorem instantiatesKnown {id child : Nat} (step : circuit.Instantiates id child) : id < circuit.size := by
  obtain ⟨name, listed, -⟩ := step
  obtain ⟨inst, mem, -⟩ := childInstance listed
  exact instanceKnown mem

section Chain

structure Around (circuit : Circuit) (chain : List Nat) (id : Nat) : Prop where
  distinct : chain.Nodup
  contains : ∀ outer ∈ chain, Relation.TransGen circuit.Instantiates outer id

namespace Around

variable {chain : List Nat} {id child : Nat}

theorem nil (id : Nat) : circuit.Around [] id := ⟨List.nodup_nil, nofun⟩

theorem push (around : circuit.Around chain id) (apart : id ∉ chain) (step : circuit.Instantiates id child) :
    circuit.Around (chain ++ [id]) child := by
  constructor
  · refine List.nodup_append.mpr ⟨around.distinct, List.nodup_singleton id, ?_⟩
    rintro outer mem _ own rfl
    exact apart (List.mem_singleton.mp own ▸ mem)
  · intro outer mem
    rcases List.mem_append.mp mem with above | own
    · exact (around.contains outer above).tail step
    · exact List.mem_singleton.mp own ▸ .single step

theorem snoc (around : circuit.Around chain id) (acyclic : ¬Relation.TransGen circuit.Instantiates id id)
    (step : circuit.Instantiates id child) : circuit.Around (chain ++ [id]) child :=
  around.push (fun mem => acyclic (around.contains id mem)) step

theorem short (around : circuit.Around chain id) : chain.length ≤ circuit.size := by
  have known : ∀ outer ∈ chain, outer ∈ List.range circuit.size := by
    intro outer mem
    obtain ⟨_, step, -⟩ := Relation.TransGen.head'_iff.mp (around.contains outer mem)
    exact List.mem_range.mpr (instantiatesKnown step)
  simpa using (List.subperm_of_subset around.distinct known).length_le

end Around

end Chain

section Visit

structure Visited (circuit : Circuit) (chain : List Nat) (id : Nat) (order order' : List Nat) : Prop where
  ordered : InOrder circuit.parts [] order'
  kept : order ⊆ order'
  own : id ∈ order'
  added : ∀ other ∈ order', other ∈ order ∨ other ∉ chain ∧ circuit.Needs id other

theorem foldVisited {visit : List Nat → Nat → Except Fault (List Nat)} {chain : List Nat} {id : Nat}
    (each : ∀ {child order order'}, circuit.Instantiates id child → visit order child = .ok order' →
      InOrder circuit.parts [] order → circuit.Visited chain child order order')
    {names : List String} (known : names ⊆ (circuit.definition id).children) {order order' : List Nat}
    (ok : names.foldlM (fun order name => do visit order (← circuit.lookup name)) order = .ok order')
    (ordered : InOrder circuit.parts [] order) :
    InOrder circuit.parts [] order' ∧ order ⊆ order' ∧
      (∀ name ∈ names, ∃ child ∈ order', circuit.lookup name = .ok child) ∧
      ∀ other ∈ order', other ∈ order ∨ other ∉ chain ∧ circuit.Needs id other := by
  induction names generalizing order with
  | nil =>
    cases ok
    exact ⟨ordered, fun _ mem => mem, nofun, fun _ mem => .inl mem⟩
  | cons name rest ih =>
    rw [List.foldlM_cons] at ok
    obtain ⟨between, stepped, ok⟩ := Result.okBind ok
    obtain ⟨child, found, stepped⟩ := Result.okBind stepped
    have step : circuit.Instantiates id child := ⟨name, known List.mem_cons_self, found⟩
    have visited := each step stepped ordered
    obtain ⟨ordered', kept, all, added⟩ := ih (fun _ mem => known (List.mem_cons_of_mem name mem)) ok visited.ordered
    refine ⟨ordered', fun _ mem => kept (visited.kept mem), fun other mem => ?_, fun other mem => ?_⟩
    · rcases List.mem_cons.mp mem with rfl | later
      · exact ⟨child, kept visited.own, found⟩
      · exact all other later
    · rcases added other mem with before | new
      · exact (visited.added other before).imp_right fun ⟨apart, needs⟩ => ⟨apart, needs.head step⟩
      · exact .inr new

theorem visitVisited {depth id : Nat} {chain order order' : List Nat}
    (ok : circuit.visit depth chain id order = .ok order') (ordered : InOrder circuit.parts [] order) :
    circuit.Visited chain id order order' := by
  induction depth generalizing chain id order order' with
  | zero => cases ok
  | succ depth ih =>
    unfold visit at ok
    split at ok
    · rename_i known
      cases ok
      exact ⟨ordered, fun _ mem => mem, known, fun _ mem => .inl mem⟩
    · rename_i fresh
      split at ok
      · cases ok
      · rename_i outside
        obtain ⟨between, folded, done⟩ := Result.okBind ok
        cases done
        obtain ⟨ordered', kept, all, added⟩ := foldVisited (fun _ ok ordered => ih ok ordered)
          (fun _ mem => mem) folded ordered
        -- the visits of what it needs have kept off the definition itself, which was on their chain
        have missing : id ∉ between := fun mem => (added id mem).elim fresh fun new =>
          new.1 (List.mem_append_right chain (List.mem_singleton_self id))
        refine ⟨ordered'.snoc missing fun child part => ?_, fun _ mem => List.mem_append_left _ (kept mem),
          List.mem_append_right _ (List.mem_singleton_self id), fun other mem => ?_⟩
        · obtain ⟨name, listed, found⟩ := partsMem.mp part
          obtain ⟨child', mem, found'⟩ := all name listed
          exact Except.ok.inj (found'.symm.trans found) ▸ mem
        · rcases List.mem_append.mp mem with before | last
          · exact (added other before).imp_right fun new =>
              ⟨fun mem => new.1 (List.mem_append_left _ mem), new.2⟩
          · obtain rfl := List.mem_singleton.mp last
            exact .inr ⟨outside, .refl⟩

theorem reachableMem {root : Nat} {order : List Nat} (ok : circuit.reachable root = .ok order) {id : Nat} :
    id ∈ order ↔ circuit.Needs root id := by
  have visited := visitVisited ok (.nil [])
  constructor
  · exact fun mem => ((visited.added id mem).resolve_left List.not_mem_nil).2
  · intro needs
    obtain ⟨path, within⟩ := needsWithin.mp needs
    exact withinReachable ok within

theorem foldFinds {visit : List Nat → Nat → Except Fault (List Nat)} {names : List String}
    (each : ∀ name ∈ names, ∃ child, circuit.lookup name = .ok child ∧
      ∀ order, ∃ order', visit order child = .ok order') (order : List Nat) :
    ∃ order', names.foldlM (fun order name => do visit order (← circuit.lookup name)) order = .ok order' := by
  induction names generalizing order with
  | nil => exact ⟨order, rfl⟩
  | cons name rest ih =>
    obtain ⟨child, found, finds⟩ := each name List.mem_cons_self
    obtain ⟨between, stepped⟩ := finds order
    obtain ⟨order', ok⟩ := ih (fun other mem => each other (List.mem_cons_of_mem name mem)) between
    refine ⟨order', ?_⟩
    rw [List.foldlM_cons, found]
    exact (congrArg (· >>= _) stepped).trans ok

variable {root : Nat}
  (known : ∀ id, circuit.Needs root id → ∀ name ∈ (circuit.definition id).children, ∃ child, circuit.lookup name = .ok child)
  (acyclic : ∀ id, circuit.Needs root id → ¬Relation.TransGen circuit.Instantiates id id)
include known acyclic

theorem visitFinds {depth id : Nat} {chain : List Nat} (needs : circuit.Needs root id) (around : circuit.Around chain id)
    (deep : circuit.size < depth + chain.length) (order : List Nat) :
    ∃ order', circuit.visit depth chain id order = .ok order' := by
  induction depth generalizing id chain order with
  | zero => exact absurd around.short (by omega)
  | succ depth ih =>
    unfold visit
    split
    · exact ⟨order, rfl⟩
    have apart : id ∉ chain := fun mem => acyclic id needs (around.contains id mem)
    rw [if_neg apart]
    have below : ∀ name ∈ (circuit.definition id).children, ∃ child, circuit.lookup name = .ok child ∧
        ∀ order, ∃ order', circuit.visit depth (chain ++ [id]) child order = .ok order' := by
      intro name mem
      obtain ⟨child, found⟩ := known id needs name mem
      have step : circuit.Instantiates id child := ⟨name, mem, found⟩
      refine ⟨child, found, ih (needs.tail step) (around.snoc (acyclic id needs) step) ?_⟩
      rw [List.length_append, List.length_singleton]
      omega
    obtain ⟨between, folded⟩ := @foldFinds _ (fun order child => circuit.visit depth (chain ++ [id]) child order) _
      below order
    exact ⟨between ++ [id], by rw [folded]; rfl⟩

end Visit

/-- The search succeeds exactly when all definitions that can be reached exist and none of them contains itself. -/
theorem reachableIff {root : Nat} : (∃ order, circuit.reachable root = .ok order) ↔
    (∀ id, circuit.Needs root id → ∀ name ∈ (circuit.definition id).children, ∃ child, circuit.lookup name = .ok child) ∧
      ∀ id, circuit.Needs root id → ¬Relation.TransGen circuit.Instantiates id id := by
  constructor
  · rintro ⟨order, ok⟩
    obtain ⟨closed, -, -⟩ := visitClosed ok nofun
    have ordered := (visitVisited ok (.nil [])).ordered
    refine ⟨fun id needs name mem => ?_, fun id needs loop => ?_⟩
    · obtain ⟨child, -, found⟩ := closed id ((reachableMem ok).mpr needs) name mem
      exact ⟨child, found⟩
    · refine ordered.acyclic ((reachableMem ok).mpr needs) ?_
      exact Relation.TransGen.mono (fun _ _ step => partsMem.mpr step) _ _ (Relation.transGen_swap.mpr loop)
  · rintro ⟨known, acyclic⟩
    exact visitFinds known acyclic .refl (.nil root) (Nat.lt_succ_self _) []

end CircuitSim.Circuit
