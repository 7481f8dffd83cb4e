import CircuitSim.Proofs.Linking
import Mathlib.Data.List.Induction
import Mathlib.Data.List.Nodup
import Mathlib.Data.List.Range

/-! An engine at work, with modules under construction beside it. Whatever is done in whatever order, the table of
symbols holds what the loaded modules export, and a handle names one module for ever. Main statement: `symbolsTrack`. -/
namespace CircuitSim

section Lookup

variable {κ α : Type} [BEq κ] [LawfulBEq κ] {entries : List (κ × α)} {key : κ}

theorem lookupMem {x : α} (found : entries.lookup key = some x) : (key, x) ∈ entries := by
  obtain ⟨before, behind, rfl, -⟩ := List.lookup_eq_some_iff.mp found
  exact List.mem_append_right before List.mem_cons_self

theorem lookupIff : (∃ x, entries.lookup key = some x) ↔ key ∈ entries.map (·.1) := by
  constructor
  · rintro ⟨x, found⟩
    exact List.mem_map.mpr ⟨(key, x), lookupMem found, rfl⟩
  · intro mem
    cases found : entries.lookup key with
    | some x => exact ⟨x, rfl⟩
    | none =>
      obtain ⟨entry, listed, rfl⟩ := List.mem_map.mp mem
      have other := List.lookup_eq_none_iff.mp found entry listed
      simp at other

end Lookup

/- Modules under construction have numbers; one that has been handed to the engine is gone. -/
structure Workbench where
  engine : Engine
  drafts : List (Option Module) := []

inductive Action
  | create (name : String)
  | declare (draft : Nat) (name : String) (params : List Param) (exported : Bool)
  | define (draft function : Nat) (body : Emit Unit)
  | add (draft : Nat)
  | remove (handle : Nat)

inductive Event
  | created (draft : Nat)
  | declared (function : Nat)
  | defined
  | added (handle : Nat) (m : Module)
  | removed (handle : Nat)
  | refused (fault : Fault)
  | missing (draft : Nat)

namespace Workbench

def build {α : Type} (bench : Workbench) (draft : Nat) (step : Build α) (done : α → Event) : Event × Workbench :=
  match bench.drafts.getD draft none with
  | none => (.missing draft, bench)
  | some m =>
    let (result, m) := step.run m
    let bench := { bench with drafts := bench.drafts.set draft (some m) }
    match result with
    | .ok x => (done x, bench)
    | .error fault => (.refused fault, bench)

def perform (bench : Workbench) : Action → Event × Workbench
  | .create name => (.created bench.drafts.length, { bench with drafts := bench.drafts ++ [some (bench.engine.create name)] })
  | .declare draft name params exported => bench.build draft (Build.declare name params exported) .declared
  | .define draft function body => bench.build draft (Build.define function body) fun _ => .defined
  | .add draft =>
    match bench.drafts.getD draft none with
    | none => (.missing draft, bench)
    | some m =>
      let drafts := bench.drafts.set draft none
      match bench.engine.add m with
      | .ok (handle, engine) => (.added handle m, { engine, drafts })
      | .error fault => (.refused fault, { bench with drafts })
  | .remove handle =>
    match bench.engine.remove handle with
    | .ok engine => (.removed handle, { bench with engine })
    | .error fault => (.refused fault, bench)

def step (state : List Event × Workbench) (action : Action) : List Event × Workbench :=
  (state.1 ++ [(state.2.perform action).1], (state.2.perform action).2)

def ran (platform : Platform) (actions : List Action) : List Event × Workbench :=
  actions.foldl step ([], { engine := .empty platform })

theorem ranSnoc (platform : Platform) (actions : List Action) (action : Action) :
    ran platform (actions ++ [action]) = step (ran platform actions) action :=
  List.foldl_append ..

end Workbench

def Event.handle? : Event → Option Nat
  | .added handle _ => some handle
  | _ => none

def Event.isRemoval : Event → Bool
  | .removed _ => true
  | _ => false

def issued (log : List Event) : List Nat := log.filterMap Event.handle?

/- A module has been added under a handle, and has not been removed. -/
def Present (log : List Event) (handle : Nat) (m : Module) : Prop :=
  .added handle m ∈ log ∧ .removed handle ∉ log

def Module.exported (m : Module) : List String := m.exports.map (·.1)

namespace Engine

variable {engine : Engine} {m : Module}

theorem findPresent {name : String} :
    (engine.find? name).isSome ↔ engine.exported name ∨ (engine.platform.host.symbol? name).isSome := by
  unfold find? exported
  cases engine.symbols.lookup name <;> simp

theorem addOk {handle : Nat} {engine' : Engine} (ok : engine.add m = .ok (handle, engine')) :
    engine.refusal? m = none ∧ handle = engine.next ∧ engine' = { engine with
      symbols := m.exports.foldl (fun symbols (name, id) => enter symbols name (.loaded engine.next id)) engine.symbols
      modules := (engine.next, engine.load m) :: engine.modules
      next := engine.next + 1 } := by
  unfold add at ok
  split at ok
  · exact nomatch ok
  · rename_i accepted
    obtain ⟨rfl, rfl⟩ := Prod.mk.inj (Except.ok.inj ok)
    exact ⟨accepted, rfl, rfl⟩

theorem removeOk {handle : Nat} {engine' : Engine} (ok : engine.remove handle = .ok engine') :
    ∃ loaded, engine.modules.lookup handle = some loaded ∧ engine' = { engine with
      symbols := engine.symbols.filter (·.1 ∉ loaded.exports)
      modules := engine.modules.filter (·.1 ≠ handle) } := by
  unfold remove at ok
  split at ok
  · exact nomatch ok
  · rename_i loaded found
    exact ⟨loaded, found, (Except.ok.inj ok).symm⟩

theorem acceptedFresh (accepted : engine.refusal? m = none) : ∀ name ∈ m.exported, engine.symbols.lookup name = none := by
  intro name mem
  obtain ⟨entry, listed, rfl⟩ := List.mem_map.mp mem
  unfold refusal? at accepted
  split at accepted
  · exact nomatch accepted
  · have free := List.find?_eq_none.mp (Option.map_eq_none_iff.mp accepted) entry listed
    exact Option.not_isSome_iff_eq_none.mp free

theorem withdrawn {symbols : List (String × Target)} (names : List String) (key : String) :
    (symbols.filter (·.1 ∉ names)).lookup key = if key ∈ names then none else symbols.lookup key := by
  induction symbols with
  | nil => exact (ite_self _).symm
  | cons entry rest ih =>
    by_cases gone : entry.1 ∈ names
    · rw [List.filter_cons_of_neg (by simpa using gone), ih, List.lookup_cons]
      split
      · rfl
      · rename_i kept
        have other : (key == entry.1) = false := beq_eq_false_iff_ne.mpr fun same => kept (same ▸ gone)
        rw [other]
    · rw [List.filter_cons_of_pos (by simpa using gone), List.lookup_cons, List.lookup_cons, ih]
      by_cases own : key = entry.1
      · subst own
        rw [if_neg gone, if_neg gone]
      · rw [beq_eq_false_iff_ne.mpr own]

theorem entered {exports : List (String × Nat)} {symbols : List (String × Target)} {handle : Nat} (key : String) :
    (exports.foldl (fun symbols (name, id) => enter symbols name (.loaded handle id)) symbols).lookup key =
      ((exports.reverse.lookup key).map (.loaded handle)).or (symbols.lookup key) := by
  induction exports using List.reverseRecOn with
  | nil => rfl
  | append_singleton exports entry ih =>
    rw [List.foldl_append, List.foldl_cons, List.foldl_nil, enterLookup, List.reverse_append, List.reverse_singleton,
      List.singleton_append, List.lookup_cons]
    by_cases own : key = entry.1
    · rw [if_pos own, beq_iff_eq.mpr own]
      rfl
    · rw [if_neg own, beq_eq_false_iff_ne.mpr own, ih]

section Left

variable {modules : List (Nat × LoadedModule)} {handle : Nat}

theorem leftHandles : (modules.filter (·.1 ≠ handle)).map (·.1) = (modules.map (·.1)).filter (· ≠ handle) := by
  rw [List.filter_map]
  rfl

theorem leftMem {handle' : Nat} : handle' ∈ (modules.filter (·.1 ≠ handle)).map (·.1) ↔
    handle' ≠ handle ∧ handle' ∈ modules.map (·.1) := by
  rw [leftHandles, List.mem_filter, decide_eq_true_eq]
  exact and_comm

theorem leftLength (distinct : (modules.map (·.1)).Nodup) (mem : handle ∈ modules.map (·.1)) :
    (modules.filter (·.1 ≠ handle)).length + 1 = modules.length := by
  have erased : (modules.filter (·.1 ≠ handle)).map (·.1) = (modules.map (·.1)).erase handle := by
    rw [leftHandles, distinct.erase_eq_filter]
    refine List.filter_congr fun other _ => ?_
    by_cases own : other = handle <;> simp [own]
  have shorter := congrArg List.length erased
  rw [List.length_map, List.length_erase_of_mem mem, List.length_map] at shorter
  have some := List.length_pos_of_mem mem
  rw [List.length_map] at some
  omega

end Left

end Engine


section Log

variable {log : List Event} {event : Event}

theorem issuedSnoc : issued (log ++ [event]) = issued log ++ event.handle?.toList := by
  rw [issued, List.filterMap_append]
  rfl

theorem exportedLookup {m : Module} {name : String} : name ∈ m.exported ↔ ∃ id, m.exports.reverse.lookup name = some id := by
  rw [lookupIff, List.map_reverse, List.mem_reverse]
  rfl

theorem presentSnoc {handle : Nat} {m : Module} (other : ∀ m, event ≠ .added handle m) (kept : event ≠ .removed handle) :
    Present (log ++ [event]) handle m ↔ Present log handle m := by
  have added : .added handle m ∈ log ++ [event] ↔ .added handle m ∈ log := by
    simp [(other m).symm]
  have removed : .removed handle ∈ log ++ [event] ↔ .removed handle ∈ log := by
    simp [kept.symm]
  rw [Present, Present, added, removed]

theorem presentShrunk {handle handle' : Nat} {m : Module} :
    Present (log ++ [.removed handle]) handle' m ↔ handle' ≠ handle ∧ Present log handle' m := by
  simp only [Present, List.mem_append, List.mem_singleton, reduceCtorEq, or_false, Event.removed.injEq, not_or]
  tauto

end Log

structure Engine.Tracks (engine : Engine) (log : List Event) : Prop where
  handles : issued log = List.range engine.next
  once : ∀ handle m m', .added handle m ∈ log → .added handle m' ∈ log → m = m'
  removals : ∀ handle, .removed handle ∈ log → handle < engine.next
  distinct : (engine.modules.map (·.1)).Nodup
  loads : ∀ handle, handle ∈ engine.modules.map (·.1) ↔ ∃ m, Present log handle m
  exports : ∀ handle m loaded, Present log handle m → (handle, loaded) ∈ engine.modules → loaded.exports = m.exported
  symbols : ∀ name target, engine.symbols.lookup name = some target ↔
    ∃ handle id m, Present log handle m ∧ m.exports.reverse.lookup name = some id ∧ target = .loaded handle id
  balance : engine.count + log.countP Event.isRemoval = (issued log).length

namespace Engine.Tracks

variable {engine engine' : Engine} {log : List Event} {m m' : Module} {handle handle' : Nat}

theorem start (platform : Platform) : (Engine.empty platform).Tracks [] where
  handles := rfl
  once _ _ _ mem := nomatch mem
  removals _ mem := nomatch mem
  distinct := List.nodup_nil
  loads handle := by
    constructor
    · exact fun mem => nomatch mem
    · exact fun ⟨_, present⟩ => nomatch present.1
  exports _ _ _ _ mem := nomatch mem
  symbols name target := by
    constructor
    · exact nofun
    · exact fun ⟨_, _, _, present, _⟩ => nomatch present.1
  balance := rfl

variable (tracks : engine.Tracks log)
include tracks

theorem handleLess (added : .added handle m ∈ log) : handle < engine.next := by
  have given : handle ∈ issued log := List.mem_filterMap.mpr ⟨_, added, rfl⟩
  rw [tracks.handles] at given
  exact List.mem_range.mp given

theorem presentGrown : Present (log ++ [.added engine.next m]) handle m' ↔
    handle = engine.next ∧ m' = m ∨ handle ≠ engine.next ∧ Present log handle m' := by
  by_cases new : handle = engine.next
  · subst new
    have fresh : Event.added engine.next m' ∉ log := fun mem => lt_irrefl _ (tracks.handleLess mem)
    have unremoved : Event.removed engine.next ∉ log := fun mem => lt_irrefl _ (tracks.removals _ mem)
    simp [Present, fresh, unremoved]
  · rw [presentSnoc (fun _ same => new (Event.added.inj same).1.symm) nofun]
    simp [new]

theorem owner {name : String} (present : Present log handle m) (mem : name ∈ m.exported)
    (present' : Present log handle' m') (mem' : name ∈ m'.exported) : handle = handle' := by
  obtain ⟨id, found⟩ := exportedLookup.mp mem
  obtain ⟨id', found'⟩ := exportedLookup.mp mem'
  have known := (tracks.symbols name _).mpr ⟨handle, id, m, present, found, rfl⟩
  have known' := (tracks.symbols name _).mpr ⟨handle', id', m', present', found', rfl⟩
  exact (Target.loaded.inj (Option.some.inj (known.symm.trans known'))).1

theorem quiet {event : Event} (unadded : ∀ handle m, event ≠ .added handle m) (unremoved : ∀ handle, event ≠ .removed handle) :
    engine.Tracks (log ++ [event]) := by
  have present (handle : Nat) (m : Module) : Present (log ++ [event]) handle m ↔ Present log handle m :=
    presentSnoc (unadded handle) (unremoved handle)
  have same : issued (log ++ [event]) = issued log := by
    rw [issuedSnoc]
    cases event <;> simp_all [Event.handle?]
  have added {handle : Nat} {m : Module} (mem : .added handle m ∈ log ++ [event]) : .added handle m ∈ log := by
    rcases List.mem_append.mp mem with before | last
    · exact before
    · exact absurd (List.mem_singleton.mp last).symm (unadded handle m)
  refine ⟨same.trans tracks.handles, fun handle m m' mem mem' => tracks.once handle m m' (added mem) (added mem'),
    fun handle mem => ?_, tracks.distinct, ?_, ?_, ?_, ?_⟩
  · rcases List.mem_append.mp mem with before | last
    · exact tracks.removals handle before
    · exact absurd (List.mem_singleton.mp last).symm (unremoved handle)
  · simpa only [present] using tracks.loads
  · simpa only [present] using tracks.exports
  · simpa only [present] using tracks.symbols
  · have unmoved : log.countP Event.isRemoval + [event].countP Event.isRemoval = log.countP Event.isRemoval := by
      cases event <;> simp_all [Event.isRemoval]
    rw [List.countP_append, unmoved, same]
    exact tracks.balance

theorem symbolsGrown (accepted : engine.refusal? m = none) {name : String} {target : Target} :
    ((m.exports.reverse.lookup name).map (.loaded engine.next)).or (engine.symbols.lookup name) = some target ↔
      ∃ handle id m', Present (log ++ [.added engine.next m]) handle m' ∧ m'.exports.reverse.lookup name = some id ∧
        target = .loaded handle id := by
  constructor
  · intro found
    cases own : m.exports.reverse.lookup name with
    | some id =>
      rw [own] at found
      exact ⟨engine.next, id, m, tracks.presentGrown.mpr (.inl ⟨rfl, rfl⟩), own, (Option.some.inj found).symm⟩
    | none =>
      rw [own] at found
      obtain ⟨handle, id, m', present, found', rfl⟩ := (tracks.symbols name target).mp found
      have old := (tracks.handleLess present.1).ne
      exact ⟨handle, id, m', tracks.presentGrown.mpr (.inr ⟨old, present⟩), found', rfl⟩
  · rintro ⟨handle, id, m', present, found, rfl⟩
    rcases tracks.presentGrown.mp present with ⟨rfl, rfl⟩ | ⟨-, present⟩
    · rw [found]
      rfl
    · have taken := (tracks.symbols name _).mpr ⟨handle, id, m', present, found, rfl⟩
      -- the new module does not export a name that is taken
      have free : m.exports.reverse.lookup name = none := by
        cases own : m.exports.reverse.lookup name with
        | none => rfl
        | some id' => exact nomatch (acceptedFresh accepted name (exportedLookup.mpr ⟨id', own⟩)).symm.trans taken
      rw [free, taken]
      rfl

theorem grown (ok : engine.add m = .ok (handle, engine')) : engine'.Tracks (log ++ [.added handle m]) := by
  obtain ⟨accepted, rfl, rfl⟩ := addOk ok
  have unlisted : engine.next ∉ engine.modules.map (·.1) := by
    rw [tracks.loads]
    exact fun ⟨m', present⟩ => lt_irrefl _ (tracks.handleLess present.1)
  refine ⟨?_, fun handle m₁ m₂ mem mem' => ?_, fun handle mem => ?_, ?_, fun handle => ?_, fun handle m' loaded present mem => ?_,
    fun name target => ?_, ?_⟩
  · rw [issuedSnoc, tracks.handles, List.range_succ]
    rfl
  · simp only [List.mem_append, List.mem_singleton, Event.added.injEq] at mem mem'
    rcases mem with mem | ⟨rfl, rfl⟩
    · rcases mem' with mem' | ⟨rfl, rfl⟩
      · exact tracks.once handle m₁ m₂ mem mem'
      · exact absurd (tracks.handleLess mem) (lt_irrefl _)
    · rcases mem' with mem' | ⟨-, rfl⟩
      · exact absurd (tracks.handleLess mem') (lt_irrefl _)
      · rfl
  · simp only [List.mem_append, List.mem_singleton, reduceCtorEq, or_false] at mem
    exact Nat.lt_succ_of_lt (tracks.removals handle mem)
  · exact List.nodup_cons.mpr ⟨unlisted, tracks.distinct⟩
  · rw [List.map_cons, List.mem_cons, tracks.loads]
    simp only [tracks.presentGrown]
    by_cases new : handle = engine.next
    · simp [new]
    · simp [new]
  · rcases tracks.presentGrown.mp present with ⟨rfl, rfl⟩ | ⟨old, present⟩
    · rcases List.mem_cons.mp mem with same | mem
      · rw [(Prod.mk.inj same).2]
        rfl
      · exact absurd (List.mem_map_of_mem mem) unlisted
    · rcases List.mem_cons.mp mem with same | mem
      · exact absurd (Prod.mk.inj same).1 old
      · exact tracks.exports handle m' loaded present mem
  · rw [entered]
    exact tracks.symbolsGrown accepted
  · have balance := tracks.balance
    rw [issuedSnoc, List.length_append, List.countP_append, count, List.length_cons]
    rw [count] at balance
    simp only [List.countP_singleton, Event.isRemoval, Event.handle?, Option.toList_some, List.length_singleton]
    simp only [Bool.false_eq_true, if_false]
    omega

theorem symbolsShrunk (present : Present log handle m) {name : String} {target : Target} :
    (if name ∈ m.exported then none else engine.symbols.lookup name) = some target ↔
      ∃ handle' id m', Present (log ++ [.removed handle]) handle' m' ∧ m'.exports.reverse.lookup name = some id ∧
        target = .loaded handle' id := by
  simp only [presentShrunk]
  by_cases own : name ∈ m.exported
  · rw [if_pos own]
    refine ⟨nofun, fun ⟨handle', id, m', ⟨kept, present'⟩, found', _⟩ => ?_⟩
    -- the name belongs to the module that goes
    exact absurd (tracks.owner present' (exportedLookup.mpr ⟨id, found'⟩) present own) kept
  · rw [if_neg own, tracks.symbols]
    constructor
    · rintro ⟨handle', id, m', present', found', rfl⟩
      have kept : handle' ≠ handle := by
        rintro rfl
        exact own (tracks.once _ _ _ present'.1 present.1 ▸ exportedLookup.mpr ⟨id, found'⟩)
      exact ⟨handle', id, m', ⟨kept, present'⟩, found', rfl⟩
    · rintro ⟨handle', id, m', ⟨-, present'⟩, found', rfl⟩
      exact ⟨handle', id, m', present', found', rfl⟩

theorem shrunk (ok : engine.remove handle = .ok engine') : engine'.Tracks (log ++ [.removed handle]) := by
  obtain ⟨loaded, found, rfl⟩ := removeOk ok
  have mem := lookupMem found
  obtain ⟨m, present⟩ := (tracks.loads handle).mp (List.mem_map_of_mem mem)
  have exports := tracks.exports handle m loaded present mem
  have same : issued (log ++ [.removed handle]) = issued log := by
    rw [issuedSnoc]
    exact List.append_nil _
  refine ⟨same.trans tracks.handles, fun handle' m₁ m₂ mem mem' => ?_, fun handle' mem => ?_, ?_, fun handle' => ?_,
    fun handle' m' loaded' present' mem' => ?_, fun name target => ?_, ?_⟩
  · simp only [List.mem_append, List.mem_singleton, reduceCtorEq, or_false] at mem mem'
    exact tracks.once handle' m₁ m₂ mem mem'
  · rcases List.mem_append.mp mem with before | last
    · exact tracks.removals handle' before
    · obtain rfl := Event.removed.inj (List.mem_singleton.mp last)
      exact tracks.handleLess present.1
  · exact tracks.distinct.sublist (List.filter_sublist.map _)
  · rw [leftMem, tracks.loads]
    simp only [presentShrunk, exists_and_left]
  · exact tracks.exports handle' m' loaded' (presentShrunk.mp present').2 (List.mem_filter.mp mem').1
  · rw [withdrawn, exports]
    exact tracks.symbolsShrunk present
  · have balance := tracks.balance
    have one := leftLength tracks.distinct (List.mem_map_of_mem mem)
    rw [count] at balance
    rw [same, List.countP_append, count, ← balance, ← one]
    simp only [List.countP_singleton, Event.isRemoval, if_true]
    omega

end Engine.Tracks

namespace Workbench

variable (bench : Workbench)

theorem buildQuiet {α : Type} (draft : Nat) (step : Build α) {done : α → Event}
    (unadded : ∀ x handle m, done x ≠ .added handle m) (unremoved : ∀ x handle, done x ≠ .removed handle) :
    (bench.build draft step done).2.engine = bench.engine ∧
      (∀ handle m, (bench.build draft step done).1 ≠ .added handle m) ∧
        ∀ handle, (bench.build draft step done).1 ≠ .removed handle := by
  unfold build
  cases bench.drafts.getD draft none with
  | none => exact ⟨rfl, fun _ _ => nofun, fun _ => nofun⟩
  | some m =>
    simp only
    rcases ExceptT.run step m with ⟨fault | x, m'⟩
    · exact ⟨rfl, fun _ _ => nofun, fun _ => nofun⟩
    · exact ⟨rfl, unadded x, unremoved x⟩

theorem performCases (action : Action) :
    (∃ handle m, (bench.perform action).1 = .added handle m ∧
      bench.engine.add m = .ok (handle, (bench.perform action).2.engine)) ∨
    (∃ handle, (bench.perform action).1 = .removed handle ∧
      bench.engine.remove handle = .ok (bench.perform action).2.engine) ∨
    (bench.perform action).2.engine = bench.engine ∧ (∀ handle m, (bench.perform action).1 ≠ .added handle m) ∧
      ∀ handle, (bench.perform action).1 ≠ .removed handle := by
  cases action with
  | create name => exact .inr (.inr ⟨rfl, fun _ _ => nofun, fun _ => nofun⟩)
  | declare draft name params exported =>
    exact .inr (.inr (bench.buildQuiet draft _ (fun _ _ _ => nofun) fun _ _ => nofun))
  | define draft function body =>
    exact .inr (.inr (bench.buildQuiet draft _ (fun _ _ _ => nofun) fun _ _ => nofun))
  | add draft =>
    rw [perform]
    split
    · exact .inr (.inr ⟨rfl, fun _ _ => nofun, fun _ => nofun⟩)
    · rename_i m _
      cases added : bench.engine.add m with
      | ok made => exact .inl ⟨made.1, m, rfl, added⟩
      | error fault => exact .inr (.inr ⟨rfl, fun _ _ => nofun, fun _ => nofun⟩)
  | remove handle =>
    rw [perform]
    cases left : bench.engine.remove handle with
    | ok engine => exact .inr (.inl ⟨handle, rfl, left⟩)
    | error fault => exact .inr (.inr ⟨rfl, fun _ _ => nofun, fun _ => nofun⟩)

variable {bench} {log : List Event}

theorem performTracks (tracks : bench.engine.Tracks log) (action : Action) :
    (bench.perform action).2.engine.Tracks (log ++ [(bench.perform action).1]) := by
  rcases bench.performCases action with ⟨handle, m, event, ok⟩ | ⟨handle, event, ok⟩ | ⟨same, unadded, unremoved⟩
  · rw [event]
    exact tracks.grown ok
  · rw [event]
    exact tracks.shrunk ok
  · rw [same]
    exact tracks.quiet unadded unremoved

theorem performPlatform (action : Action) : (bench.perform action).2.engine.platform = bench.engine.platform := by
  rcases bench.performCases action with ⟨_, _, -, ok⟩ | ⟨_, -, ok⟩ | ⟨same, -⟩
  · obtain ⟨-, -, made⟩ := Engine.addOk ok
    rw [made]
  · obtain ⟨_, -, made⟩ := Engine.removeOk ok
    rw [made]
  · rw [same]

section Ran

variable (platform : Platform) (actions : List Action)

theorem ranPlatform : (ran platform actions).2.engine.platform = platform := by
  induction actions using List.reverseRecOn with
  | nil => rfl
  | append_singleton actions action ih =>
    rw [ranSnoc]
    exact (performPlatform action).trans ih

theorem ranTracks : (ran platform actions).2.engine.Tracks (ran platform actions).1 := by
  induction actions using List.reverseRecOn with
  | nil => exact .start platform
  | append_singleton actions action ih =>
    rw [ranSnoc]
    exact performTracks ih action

end Ran

end Workbench

namespace Engine

variable {engine : Engine} {m : Module}

theorem addRefused {fault : Fault} (refused : engine.add m = .error fault) :
    ∃ name, fault = .unresolvedSymbol name ∨ fault = .duplicateSymbol name := by
  unfold add at refused
  split at refused
  · rename_i why
    obtain rfl := Except.error.inj refused
    unfold refusal? at why
    split at why
    · rename_i name _
      exact ⟨name, .inl (Option.some.inj why).symm⟩
    · obtain ⟨entry, -, rfl⟩ := Option.map_eq_some_iff.mp why
      exact ⟨entry.1, .inr rfl⟩
  · exact nomatch refused

theorem removeRefused {handle : Nat} {fault : Fault} (refused : engine.remove handle = .error fault) :
    fault = .unknownModule handle := by
  unfold remove at refused
  split at refused
  · exact (Except.error.inj refused).symm
  · exact nomatch refused

namespace Tracks

variable {log : List Event} {handle : Nat} (tracks : engine.Tracks log)
include tracks

theorem exportedIff {name : String} : engine.exported name ↔ ∃ handle m, Present log handle m ∧ name ∈ m.exported := by
  rw [exported, Option.isSome_iff_exists]
  constructor
  · rintro ⟨target, found⟩
    obtain ⟨handle, id, m, present, listed, -⟩ := (tracks.symbols name target).mp found
    exact ⟨handle, m, present, exportedLookup.mpr ⟨id, listed⟩⟩
  · rintro ⟨handle, m, present, mem⟩
    obtain ⟨id, listed⟩ := exportedLookup.mp mem
    exact ⟨_, (tracks.symbols name _).mpr ⟨handle, id, m, present, listed, rfl⟩⟩

theorem uncovers (present : Present log handle m) : ∃ engine', engine.remove handle = .ok engine' ∧
    ∀ name ∈ m.exported, engine'.find? name = (engine.platform.host.symbol? name).map .host := by
  obtain ⟨loaded, found⟩ := lookupIff.mpr ((tracks.loads handle).mpr ⟨m, present⟩)
  refine ⟨_, by rw [remove, found], fun name exported => ?_⟩
  rw [find?, withdrawn, tracks.exports handle m loaded present (lookupMem found), if_pos exported]

end Tracks

end Engine

/-- The table of symbols holds the names that the present modules export, each of them the name of one module, and a
name is found if it is there or with the host. A module that is removed uncovers the host's names. Handles are never
given out twice, and as many modules are loaded as have been added and not removed. Only a module that is added and
one that is removed make a difference to the engine. -/
theorem symbolsTrack (platform : Platform) (actions : List Action) :
    let log := (Workbench.ran platform actions).1
    let bench := (Workbench.ran platform actions).2
    let engine := bench.engine
    (∀ handle, (∃ loaded, engine.modules.lookup handle = some loaded) ↔ ∃ m, Present log handle m) ∧
    (∀ name, engine.exported name ↔ ∃ handle m, Present log handle m ∧ name ∈ m.exported) ∧
    (∀ name handle m handle' m', Present log handle m → name ∈ m.exported → Present log handle' m' →
      name ∈ m'.exported → handle = handle' ∧ m = m') ∧
    (∀ name, (engine.find? name).isSome ↔ engine.exported name ∨ (platform.host.symbol? name).isSome) ∧
    (∀ handle m, Present log handle m → ∃ engine', engine.remove handle = .ok engine' ∧
      ∀ name ∈ m.exported, engine'.find? name = (platform.host.symbol? name).map .host) ∧
    engine.count + log.countP Event.isRemoval = (issued log).length ∧ (issued log).Nodup ∧
    (∀ draft fault, (bench.perform (.add draft)).1 = .refused fault →
      ∃ name, fault = .unresolvedSymbol name ∨ fault = .duplicateSymbol name) ∧
    (∀ handle fault, (bench.perform (.remove handle)).1 = .refused fault → fault = .unknownModule handle) ∧
    ∀ action, (∀ handle m, (bench.perform action).1 ≠ .added handle m) →
      (∀ handle, (bench.perform action).1 ≠ .removed handle) → (bench.perform action).2.engine = engine := by
  intro log bench engine
  have tracks : engine.Tracks log := Workbench.ranTracks platform actions
  have given : engine.platform = platform := Workbench.ranPlatform platform actions
  rw [← given]
  refine ⟨fun handle => lookupIff.trans (tracks.loads handle), fun name => tracks.exportedIff,
    fun name handle m handle' m' present mem present' mem' => ?_, fun name => Engine.findPresent,
    fun handle m present => tracks.uncovers present, tracks.balance, tracks.handles ▸ List.nodup_range,
    fun draft fault refused => ?_, fun handle fault refused => ?_, fun action unadded unremoved => ?_⟩
  · obtain rfl := tracks.owner present mem present' mem'
    exact ⟨rfl, tracks.once handle m m' present.1 present'.1⟩
  · rw [Workbench.perform] at refused
    split at refused
    · cases refused
    · rename_i m _
      cases added : bench.engine.add m with
      | ok made => simp [added] at refused
      | error why =>
        simp only [added] at refused
        exact Event.refused.inj refused ▸ Engine.addRefused added
  · rw [Workbench.perform] at refused
    cases left : bench.engine.remove handle with
    | ok engine' => simp [left] at refused
    | error why =>
      simp only [left] at refused
      exact Event.refused.inj refused ▸ Engine.removeRefused left
  · rcases bench.performCases action with ⟨handle, m, event, -⟩ | ⟨handle, event, -⟩ | ⟨same, -, -⟩
    · exact absurd event (unadded handle m)
    · exact absurd event (unremoved handle)
    · exact same

def shadowing : List Action := [
  .create "first", .declare 0 "malloc" [.ptr] true, .define 0 0 (pure ()), .add 0,
  .create "second", .declare 1 "malloc" [] true, .define 1 0 (pure ()), .add 1]

def allocating : Platform :=
  ⟨⟨fun name => if name = "malloc" then some 4096 else none, fun _ _ _ => .error .noFunction, fun _ _ => 0⟩, default⟩

theorem hostUncovered : (Workbench.ran allocating shadowing).2.engine.find? "malloc" = some (.loaded 0 0) ∧
    (Workbench.ran allocating shadowing).1.getLast? = some (.refused (.duplicateSymbol "malloc")) ∧
      ∃ engine', (Workbench.ran allocating shadowing).2.engine.remove 0 = .ok engine' ∧
        engine'.find? "malloc" = some (.host 4096) := by
  let first : Module := {
    name := "first"
    backend := default
    functions := [⟨"malloc", [64], true, some .done⟩]
    exports := [("malloc", 0)]
    listing := ["malloc"] }
  have log : (Workbench.ran allocating shadowing).1 = [.created 0, .declared 0, .defined, .added 0 first, .created 1,
    .declared 0, .defined, .refused (.duplicateSymbol "malloc")] := rfl
  have present : Present (Workbench.ran allocating shadowing).1 0 first := by simp [Present, log]
  obtain ⟨-, -, -, -, uncovers, -⟩ := symbolsTrack allocating shadowing
  obtain ⟨engine', left, found⟩ := uncovers 0 first present
  exact ⟨by decide +kernel, by rw [log]; rfl, engine', left, found "malloc" (by decide)⟩

end CircuitSim
