import CircuitSim.Circuit.Reach
import CircuitSim.Proofs.Expansion

/-! The search for definitions finds every one that stands at some instance path. -/
namespace CircuitSim.Circuit

variable {circuit : Circuit}

def Closed (circuit : Circuit) (order : List Nat) : Prop :=
  ∀ id ∈ order, ∀ name ∈ (circuit.definition id).children, ∃ child ∈ order, circuit.lookup name = .ok child

theorem foldClosed {step : List Nat → Nat → Except Fault (List Nat)}
    (each : ∀ {id order order'}, step order id = .ok order' → circuit.Closed order →
      circuit.Closed order' ∧ order ⊆ order' ∧ id ∈ order')
    {names : List String} {order order' : List Nat}
    (ok : names.foldlM (fun order name => do step order (← circuit.lookup name)) order = .ok order')
    (closed : circuit.Closed order) :
    circuit.Closed order' ∧ order ⊆ order' ∧ ∀ name ∈ names, ∃ child ∈ order', circuit.lookup name = .ok child := by
  induction names generalizing order with
  | nil =>
    cases ok
    exact ⟨closed, fun _ mem => mem, nofun⟩
  | cons name rest ih =>
    rw [List.foldlM_cons] at ok
    obtain ⟨between, stepped, ok⟩ := Result.okBind ok
    obtain ⟨child, found, stepped⟩ := Result.okBind stepped
    obtain ⟨closed', kept, mem⟩ := each stepped closed
    obtain ⟨closed'', kept', all⟩ := ih ok closed'
    refine ⟨closed'', fun _ mem => kept' (kept mem), fun other member => ?_⟩
    rcases List.mem_cons.mp member with rfl | later
    · exact ⟨child, kept' mem, found⟩
    · exact all other later

theorem visitClosed {depth id : Nat} {chain order order' : List Nat}
    (ok : circuit.visit depth chain id order = .ok order') (closed : circuit.Closed order) :
    circuit.Closed order' ∧ order ⊆ order' ∧ id ∈ order' := by
  induction depth generalizing chain id order order' with
  | zero => exact nomatch ok
  | succ depth ih =>
    unfold visit at ok
    split at ok
    · rename_i known
      cases ok
      exact ⟨closed, fun _ mem => mem, known⟩
    · split at ok
      · exact nomatch ok
      · obtain ⟨between, folded, done⟩ := Result.okBind ok
        cases done
        obtain ⟨closed', kept, all⟩ := foldClosed (fun ok => ih ok) folded closed
        refine ⟨fun other mem name child => ?_, fun _ mem => List.mem_append_left _ (kept mem),
          List.mem_append_right _ List.mem_cons_self⟩
        -- what a definition instantiates has been visited before it is listed itself
        rcases List.mem_append.mp mem with before | last
        · obtain ⟨found, inside, looked⟩ := closed' other before name child
          exact ⟨found, List.mem_append_left _ inside, looked⟩
        · obtain rfl := List.mem_singleton.mp last
          obtain ⟨found, inside, looked⟩ := all name child
          exact ⟨found, List.mem_append_left _ inside, looked⟩

theorem withinReachable {root id : Nat} {order : List Nat} (ok : circuit.reachable root = .ok order)
    {path : List String} (within : circuit.Within root path id) : id ∈ order := by
  obtain ⟨closed, -, own⟩ := visitClosed ok nofun
  induction within with
  | root => exact own
  | @inside path id child inst name outer mem part found ih =>
    have listed : name ∈ (circuit.definition id).children := List.mem_filterMap.mpr ⟨inst, mem, by rw [part]⟩
    obtain ⟨child', inside, looked⟩ := closed id ih name listed
    obtain rfl : child = child' := Except.ok.inj (found.symm.trans looked)
    exact inside

end CircuitSim.Circuit
