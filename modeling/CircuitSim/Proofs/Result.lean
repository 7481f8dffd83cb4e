import Mathlib.Data.List.Forall2
import Mathlib.Tactic.Common

/-! A computation that may fail has succeeded only if each of its steps has. -/
namespace CircuitSim.Result

variable {ε α β : Type}

theorem okMap {x : Except ε α} {f : α → β} {b : β} (ok : x.map f = .ok b) : ∃ a, x = .ok a ∧ f a = b := by
  cases x with
  | error fault => exact nomatch ok
  | ok a => exact ⟨a, rfl, Except.ok.inj ok⟩

theorem okBind {x : Except ε α} {f : α → Except ε β} {b : β} (ok : x >>= f = .ok b) :
    ∃ a, x = .ok a ∧ f a = .ok b := by
  cases x with
  | error fault => exact nomatch ok
  | ok a => exact ⟨a, rfl, ok⟩

theorem errorMap {x : Except ε α} {f : α → β} {fault : ε} (failed : x.map f = .error fault) : x = .error fault := by
  cases x with
  | error other =>
    cases failed
    rfl
  | ok a => cases failed

theorem errorBind {x : Except ε α} {f : α → Except ε β} {fault : ε} (failed : x >>= f = .error fault) :
    x = .error fault ∨ ∃ a, x = .ok a ∧ f a = .error fault := by
  cases x with
  | error other =>
    cases failed
    exact .inl rfl
  | ok a => exact .inr ⟨a, rfl, failed⟩

theorem bindOk {x : Except ε α} {f : α → Except ε β} {a : α} (first : x = .ok a) (then' : ∃ b, f a = .ok b) :
    ∃ b, x >>= f = .ok b := by
  subst first
  exact then'

theorem okAny {x : Except ε α} {p : α → Bool} (any : x.toOption.any p = true) : ∃ a, x = .ok a ∧ p a = true := by
  cases x with
  | error fault => exact nomatch any
  | ok a => exact ⟨a, rfl, any⟩

theorem okMapM {f : α → Except ε β} {xs : List α} {ys : List β} (ok : xs.mapM f = .ok ys) :
    List.Forall₂ (fun x y => f x = .ok y) xs ys := by
  induction xs generalizing ys with
  | nil =>
    cases ok
    exact .nil
  | cons x xs ih =>
    rw [List.mapM_cons] at ok
    obtain ⟨y, hy, ok⟩ := okBind ok
    obtain ⟨rest, hr, last⟩ := okBind ok
    cases last
    exact .cons hy (ih hr)

theorem mapMAll {f : α → Except ε β} {xs : List α} {ys : List β} (all : List.Forall₂ (fun x y => f x = .ok y) xs ys) :
    xs.mapM f = .ok ys := by
  induction all with
  | nil => rfl
  | cons first _ rest =>
    rw [List.mapM_cons, first, rest]
    rfl

theorem okForM {f : α → Except ε Unit} {xs : List α} (ok : xs.forM f = .ok ()) :
    ∀ x ∈ xs, f x = .ok () := by
  induction xs with
  | nil => simp
  | cons x xs ih =>
    obtain ⟨_, hx, rest⟩ := okBind ok
    intro y member
    rcases List.mem_cons.mp member with rfl | tail
    · exact hx
    · exact ih rest y tail

theorem forMOk {f : α → Except ε Unit} {xs : List α} (each : ∀ x ∈ xs, f x = .ok ()) : xs.forM f = .ok () := by
  induction xs with
  | nil => rfl
  | cons x xs ih =>
    have rest := ih fun y mem => each y (List.mem_cons_of_mem x mem)
    exact (congrArg (· >>= fun _ => xs.forM f) (each x List.mem_cons_self)).trans rest

theorem mapMOk {f : α → Except ε β} {xs : List α} (each : ∀ x ∈ xs, ∃ y, f x = .ok y) : ∃ ys, xs.mapM f = .ok ys := by
  induction xs with
  | nil => exact ⟨[], rfl⟩
  | cons x xs ih =>
    obtain ⟨y, first⟩ := each x List.mem_cons_self
    obtain ⟨ys, rest⟩ := ih fun z mem => each z (List.mem_cons_of_mem x mem)
    exact ⟨y :: ys, by rw [List.mapM_cons, first, rest]; rfl⟩

theorem mapMThen {γ : Type} {f : α → Except ε β} {xs : List α} {next : List β → Except ε γ}
    (each : ∀ x ∈ xs, ∃ y, f x = .ok y) (then' : ∀ ys, ∃ c, next ys = .ok c) : ∃ c, xs.mapM f >>= next = .ok c := by
  obtain ⟨ys, ok⟩ := mapMOk each
  exact bindOk ok (then' ys)

theorem indexInj {κ : Type} {f : α → κ} {xs : List α} (distinct : (xs.map f).Nodup) {i j : Nat} {a b : α}
    (here : xs[i]? = some a) (there : xs[j]? = some b) (same : f a = f b) : i = j := by
  obtain ⟨inside, -⟩ := List.getElem?_eq_some_iff.mp here
  refine (List.getElem?_inj (by simpa using inside) distinct).mp ?_
  rw [List.getElem?_map, List.getElem?_map, here, there, Option.map_some, Option.map_some, same]

theorem forallAt {γ δ : Type} {r : γ → δ → Prop} {xs : List γ} {ys : List δ} (all : List.Forall₂ r xs ys) {k : Nat}
    {x : γ} (here : xs[k]? = some x) : ∃ y, ys[k]? = some y ∧ r x y := by
  induction all generalizing k with
  | nil => simp at here
  | @cons x' y' xs ys holds rest ih =>
    cases k with
    | zero =>
      cases here
      exact ⟨y', rfl, holds⟩
    | succ k => exact ih here

theorem forallMem {γ δ : Type} {r : γ → δ → Prop} {xs : List γ} {ys : List δ} (all : List.Forall₂ r xs ys) :
    ∀ y ∈ ys, ∃ x ∈ xs, r x y := by
  induction all with
  | nil => exact nofun
  | @cons x y' xs ys holds rest ih =>
    intro y mem
    rcases List.mem_cons.mp mem with rfl | later
    · exact ⟨x, List.mem_cons_self, holds⟩
    · obtain ⟨x', member, holds'⟩ := ih y later
      exact ⟨x', List.mem_cons_of_mem x member, holds'⟩

theorem mapOnto {γ δ : Type} {f : γ → δ} {xs : List γ} {ys : List δ} (images : ∀ y ∈ ys, ∃ x ∈ xs, f x = y) :
    ∃ zs : List γ, (∀ z ∈ zs, z ∈ xs) ∧ ys = zs.map f := by
  induction ys with
  | nil => exact ⟨[], List.forall_mem_nil _, rfl⟩
  | cons y ys ih =>
    obtain ⟨x, among, rfl⟩ := images y List.mem_cons_self
    obtain ⟨zs, all, rfl⟩ := ih fun y later => images y (List.mem_cons_of_mem _ later)
    exact ⟨x :: zs, List.forall_mem_cons.mpr ⟨among, all⟩, rfl⟩

end CircuitSim.Result
