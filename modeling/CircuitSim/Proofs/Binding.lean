import CircuitSim.Proofs.Workbench
import Mathlib.Logic.Relation

/-! What calls mean by the record of what has been added. A name that a module leaves open means what the modules
loaded at that time made of it, and it means the same for as long as these are loaded. Main statement: `linksStable`. -/
namespace CircuitSim

structure Chronicle where
  added : List (Module × List Nat) := []
  loaded : List Nat := []

namespace Chronicle

def note (chronicle : Chronicle) : Event → Chronicle
  | .added _ m =>
    ⟨chronicle.added ++ [(m, chronicle.loaded)], chronicle.added.length :: chronicle.loaded⟩
  | .removed handle => { chronicle with loaded := chronicle.loaded.filter (· ≠ handle) }
  | _ => chronicle

def of (log : List Event) : Chronicle := log.foldl note {}

def function? (chronicle : Chronicle) (handle id : Nat) : Option Function :=
  chronicle.added[handle]?.bind (·.1.functions[id]?)

def exporter? (chronicle : Chronicle) (handles : List Nat) (name : String) : Option Target :=
  handles.findSome? fun handle =>
    chronicle.added[handle]?.bind fun entry => (entry.1.exports.reverse.lookup name).map (.loaded handle)

/- What a name means in a module: what was exported when the module was added, else what the host has. -/
def bound? (chronicle : Chronicle) (host : Host) (handle : Nat) (name : String) : Option Target :=
  (chronicle.added[handle]?.bind fun entry => chronicle.exporter? entry.2 name).or ((host.symbol? name).map .host)

def callee? (chronicle : Chronicle) (host : Host) (handle id : Nat) : Option Target :=
  (chronicle.function? handle id).bind fun function =>
    if function.body.isSome then some (.loaded handle id) else chronicle.bound? host handle function.name

def run (chronicle : Chronicle) (host : Host) : Nat → Target → List Value → Memory → Except Trap Memory
  | 0, _, _, _ => .error .tooDeep
  | _ + 1, .host address, args, memory => host.call address args memory
  | depth + 1, .loaded handle id, args, memory =>
    match (chronicle.function? handle id).bind (·.body) with
    | none => .error .noFunction
    | some code =>
      let call (id : Nat) (args : List Value) (memory : Memory) : Except Trap Memory :=
        match chronicle.callee? host handle id with
        | some target => chronicle.run host depth target args memory
        | none => .error .noFunction
      code.run ⟨call, host.fresh⟩ (.ofParams args) memory

def Uses (chronicle : Chronicle) (host : Host) (handle other : Nat) : Prop :=
  ∃ id id', chronicle.callee? host handle id = some (.loaded other id')

/- The module is loaded, and so are those that it uses, directly or through others. -/
def Intact (chronicle : Chronicle) (host : Host) (handle : Nat) : Prop :=
  ∀ other, Relation.ReflTransGen (chronicle.Uses host) handle other → other ∈ chronicle.loaded

def home? : Target → Option Nat
  | .loaded handle _ => some handle
  | .host _ => none

def form : Target → Nat ⊕ Nat
  | .loaded _ id => .inl id
  | .host address => .inr address

/- One module, linked alike in two chronicles: to functions of the host, and to the same functions of modules that
are linked alike themselves. -/
inductive Alike (host : Host) (chronicle chronicle' : Chronicle) : Nat → Nat → Prop
  | linked {handle handle' : Nat} {m : Module} {loaded loaded' : List Nat}
      (here : chronicle.added[handle]? = some (m, loaded)) (here' : chronicle'.added[handle']? = some (m, loaded'))
      (forms : ∀ function ∈ m.functions, function.body = none →
        (chronicle'.bound? host handle' function.name).map form = (chronicle.bound? host handle function.name).map form)
      (others : ∀ function ∈ m.functions, function.body = none → ∀ other other' id id',
        chronicle.bound? host handle function.name = some (.loaded other id) →
        chronicle'.bound? host handle' function.name = some (.loaded other' id') → Alike host chronicle chronicle' other other') :
      Alike host chronicle chronicle' handle handle'

variable {host : Host} {chronicle chronicle' : Chronicle} {log : List Event} {event : Event}

theorem intactWithin {handles : List Nat} (loaded : ∀ handle ∈ handles, handle ∈ chronicle.loaded)
    (closed : ∀ handle ∈ handles, ∀ entry ∈ chronicle.added[handle]?, ∀ id < entry.1.functions.length,
      ∀ other ∈ (chronicle.callee? host handle id).bind home?, other ∈ handles) :
    ∀ handle ∈ handles, chronicle.Intact host handle := by
  intro handle mem other uses
  suffices within : other ∈ handles from loaded other within
  induction uses with
  | refl => exact mem
  | tail _ used within =>
    obtain ⟨id, id', callee⟩ := used
    obtain ⟨function, known, -⟩ := Option.bind_eq_some_iff.mp callee
    obtain ⟨entry, here, known⟩ := Option.bind_eq_some_iff.mp known
    have less := (List.getElem?_eq_some_iff.mp known).1
    exact closed _ within entry here id less _ (by rw [callee]; rfl)

theorem ofSnoc : of (log ++ [event]) = (of log).note event :=
  List.foldl_append ..

def Extends (chronicle chronicle' : Chronicle) : Prop := chronicle.added <+: chronicle'.added

theorem noteExtends (chronicle : Chronicle) (event : Event) : chronicle.Extends (chronicle.note event) := by
  cases event with
  | added handle m => exact List.prefix_append _ _
  | created | declared | defined | removed | refused | missing => exact List.prefix_refl _

theorem ofExtends (log more : List Event) : (of log).Extends (of (log ++ more)) := by
  induction more using List.reverseRecOn with
  | nil =>
    rw [List.append_nil]
    exact List.prefix_refl _
  | append_singleton more event ih =>
    rw [← List.append_assoc, ofSnoc]
    exact ih.trans (noteExtends _ event)

structure Ordered (chronicle : Chronicle) : Prop where
  loaded : ∀ handle ∈ chronicle.loaded, handle < chronicle.added.length
  known : ∀ (handle : Nat) (entry : Module × List Nat), chronicle.added[handle]? = some entry →
    ∀ other ∈ entry.2, other < handle

theorem concatAt {α : Type} {xs : List α} {x y : α} {i : Nat} (here : (xs ++ [x])[i]? = some y) :
    xs[i]? = some y ∨ i = xs.length ∧ y = x := by
  by_cases inside : i < xs.length
  · exact .inl ((List.getElem?_append_left inside).symm.trans here)
  · rw [List.getElem?_append_right (Nat.not_lt.mp inside)] at here
    obtain ⟨only, rfl⟩ := List.getElem?_eq_some_iff.mp here
    rw [List.length_singleton] at only
    exact .inr ⟨by omega, List.getElem_singleton _⟩

theorem ofOrdered (log : List Event) : (of log).Ordered := by
  induction log using List.reverseRecOn with
  | nil =>
    constructor
    · exact fun _ mem => nomatch mem
    · exact fun _ _ here => nomatch here
  | append_singleton log event ih =>
    rw [ofSnoc]
    cases event with
    | added handle m =>
      refine ⟨fun handle mem => ?_, fun handle entry here other mem => ?_⟩
      · rw [note, List.length_append, List.length_singleton]
        rcases List.mem_cons.mp mem with rfl | mem
        · exact Nat.lt_succ_self _
        · exact Nat.lt_succ_of_lt (ih.loaded handle mem)
      · rcases concatAt here with here | ⟨rfl, rfl⟩
        · exact ih.known handle entry here other mem
        · exact ih.loaded other mem
    | removed handle => exact ⟨fun other mem => ih.loaded other (List.mem_filter.mp mem).1, ih.known⟩
    | created | declared | defined | refused | missing => exact ih

theorem exporterAt {handles : List Nat} {name : String} {target : Target}
    (found : chronicle.exporter? handles name = some target) : ∃ handle ∈ handles, ∃ entry id,
      chronicle.added[handle]? = some entry ∧ entry.1.exports.reverse.lookup name = some id ∧ target = .loaded handle id := by
  obtain ⟨handle, mem, here⟩ := List.exists_of_findSome?_eq_some found
  obtain ⟨entry, at', here⟩ := Option.bind_eq_some_iff.mp here
  obtain ⟨id, listed, rfl⟩ := Option.map_eq_some_iff.mp here
  exact ⟨handle, mem, entry, id, at', listed, rfl⟩

theorem boundAt {handle other id : Nat} {name : String} (bound : chronicle.bound? host handle name = some (.loaded other id)) :
    ∃ entry, chronicle.added[handle]? = some entry ∧ other ∈ entry.2 := by
  rcases Option.or_eq_some_iff.mp bound with found | ⟨-, hosted⟩
  · obtain ⟨entry, here, found⟩ := Option.bind_eq_some_iff.mp found
    obtain ⟨_, mem, _, _, -, -, same⟩ := exporterAt found
    exact ⟨entry, here, (Target.loaded.inj same).1 ▸ mem⟩
  · obtain ⟨_, -, same⟩ := Option.map_eq_some_iff.mp hosted
    cases same

theorem ofLength (log : List Event) : (of log).added.length = (issued log).length := by
  induction log using List.reverseRecOn with
  | nil => rfl
  | append_singleton log event ih =>
    rw [ofSnoc, issuedSnoc, List.length_append, ← ih]
    cases event with
    | added handle m => exact List.length_append
    | created | declared | defined | removed | refused | missing => rfl

section Later

variable (ordered : chronicle.Ordered) (later : chronicle.Extends chronicle')
include later

theorem addedLater {handle : Nat} (inside : handle < chronicle.added.length) :
    chronicle'.added[handle]? = chronicle.added[handle]? := by
  obtain ⟨more, same⟩ := later
  rw [← same, List.getElem?_append_left inside]

theorem exporterLater {handles : List Nat} (inside : ∀ handle ∈ handles, handle < chronicle.added.length)
    (name : String) : chronicle'.exporter? handles name = chronicle.exporter? handles name := by
  unfold exporter?
  induction handles with
  | nil => rfl
  | cons handle rest ih =>
    rw [List.findSome?_cons, List.findSome?_cons, addedLater later (inside handle List.mem_cons_self),
      ih fun other mem => inside other (List.mem_cons_of_mem handle mem)]

include ordered

theorem boundLater {handle : Nat} (inside : handle < chronicle.added.length) (name : String) :
    chronicle'.bound? host handle name = chronicle.bound? host handle name := by
  rw [bound?, bound?, addedLater later inside]
  cases here : chronicle.added[handle]? with
  | none => rfl
  | some entry =>
    have known : ∀ other ∈ entry.2, other < chronicle.added.length := fun other mem =>
      (ordered.known handle entry here other mem).trans inside
    rw [Option.bind_some, Option.bind_some, exporterLater later known]

theorem calleeLater {handle : Nat} (inside : handle < chronicle.added.length) (id : Nat) :
    chronicle'.callee? host handle id = chronicle.callee? host handle id := by
  have same : chronicle'.function? handle id = chronicle.function? handle id := by
    rw [function?, function?, addedLater later inside]
  rw [callee?, callee?, same]
  exact congrArg _ (funext fun function => by rw [boundLater ordered later inside])

theorem alikeLater {handle : Nat} (inside : handle < chronicle.added.length) :
    Alike host chronicle chronicle' handle handle := by
  induction handle using Nat.strong_induction_on with
  | _ handle ih =>
    obtain ⟨entry, here⟩ : ∃ entry, chronicle.added[handle]? = some entry := ⟨_, List.getElem?_eq_getElem inside⟩
    refine .linked here ((addedLater later inside).trans here) (fun function _ _ => ?_)
      fun function _ _ other other' id id' bound bound' => ?_
    · rw [boundLater ordered later inside]
    · rw [boundLater ordered later inside, bound] at bound'
      obtain ⟨rfl, -⟩ := Target.loaded.inj (Option.some.inj bound')
      obtain ⟨entry, here, mem⟩ := boundAt bound
      have before := ordered.known handle entry here other mem
      exact ih other before (before.trans inside)

end Later

def call (chronicle : Chronicle) (host : Host) (depth : Nat) (bound : Option Target) (args : List Value)
    (memory : Memory) : Except Trap Memory :=
  match bound with
  | some target => chronicle.run host depth target args memory
  | none => .error .noFunction

theorem callSame {depth : Nat} {bound bound' : Option Target} (formed : bound'.map form = bound.map form)
    (others : ∀ other other' id, bound = some (.loaded other id) → bound' = some (.loaded other' id) → ∀ args memory,
      chronicle'.run host depth (.loaded other' id) args memory = chronicle.run host depth (.loaded other id) args memory)
    (args : List Value) (memory : Memory) :
    chronicle'.call host depth bound' args memory = chronicle.call host depth bound args memory := by
  cases bound with
  | none =>
    obtain rfl := Option.map_eq_none_iff.mp formed
    rfl
  | some target =>
    obtain ⟨target', rfl, same⟩ := Option.map_eq_some_iff.mp formed
    cases target with
    | host address =>
      cases target' with
      | host address' =>
        obtain rfl := Sum.inr.inj same
        cases depth <;> rfl
      | loaded => exact nomatch same
    | loaded other id =>
      cases target' with
      | host => exact nomatch same
      | loaded other' id' =>
        obtain rfl := Sum.inl.inj same
        exact others other other' _ rfl rfl args memory

theorem Alike.runSame {handle handle' : Nat} (alike : Alike host chronicle chronicle' handle handle')
    (depth id : Nat) (args : List Value) (memory : Memory) :
    chronicle'.run host depth (.loaded handle' id) args memory = chronicle.run host depth (.loaded handle id) args memory := by
  induction alike generalizing depth id args memory with
  | @linked handle handle' m loaded loaded' here here' forms others ih =>
    have function (id : Nat) : chronicle.function? handle id = m.functions[id]? := by
      rw [function?, here]
      rfl
    have function' (id : Nat) : chronicle'.function? handle' id = m.functions[id]? := by
      rw [function?, here']
      rfl
    induction depth generalizing id args memory with
    | zero => rfl
    | succ depth deeper =>
      rw [run, run, function, function']
      cases m.functions[id]?.bind (·.body) with
      | none => rfl
      | some code =>
        refine congrArg (fun call => code.run ⟨call, host.fresh⟩ (.ofParams args) memory) (funext fun called =>
          funext fun args => funext fun memory => ?_)
        rw [callee?, callee?, function, function']
        cases known : m.functions[called]? with
        | none => rfl
        | some callee =>
          rw [Option.bind_some, Option.bind_some]
          by_cases own : callee.body.isSome
          · rw [if_pos own, if_pos own]
            exact deeper called args memory
          · rw [if_neg own, if_neg own]
            have mem := List.mem_of_getElem? known
            have free := Option.not_isSome_iff_eq_none.mp own
            refine callSame (forms callee mem free) (fun other other' id bound bound' => ?_) args memory
            exact ih callee mem free other other' id id bound bound' depth id

end Chronicle

open Chronicle

structure Engine.Recalls (engine : Engine) (log : List Event) : Prop where
  tracks : engine.Tracks log
  texts : ∀ handle m, .added handle m ∈ log ↔ ∃ loaded, (of log).added[handle]? = some (m, loaded)
  present : ∀ handle, handle ∈ (of log).loaded ↔ ∃ m, Present log handle m
  linked : ∀ handle m loaded, Present log handle m → (handle, loaded) ∈ engine.modules → ∀ id,
    loaded.functions.getD id default = ⟨((of log).function? handle id).bind (·.body),
      (of log).callee? engine.platform.host handle id⟩

namespace Engine.Recalls

variable {engine engine' : Engine} {log : List Event} {m : Module} {handle : Nat}

theorem start (platform : Platform) : (Engine.empty platform).Recalls [] where
  tracks := .start platform
  texts handle m := by
    constructor
    · exact fun mem => nomatch mem
    · exact fun ⟨_, here⟩ => nomatch here
  present handle := by
    constructor
    · exact fun mem => nomatch mem
    · exact fun ⟨_, present⟩ => nomatch present.1
  linked _ _ _ _ mem := nomatch mem

variable (recalls : engine.Recalls log)
include recalls

theorem count : (of log).added.length = engine.next := by
  rw [ofLength, recalls.tracks.handles, List.length_range]

theorem exporterSymbols (name : String) : (of log).exporter? (of log).loaded name = engine.symbols.lookup name := by
  cases found : (of log).exporter? (of log).loaded name with
  | some target =>
    obtain ⟨handle, mem, entry, id, here, listed, rfl⟩ := exporterAt found
    obtain ⟨m, present⟩ := (recalls.present handle).mp mem
    have text : entry.1 = m := by
      obtain ⟨loaded, here'⟩ := (recalls.texts handle m).mp present.1
      exact congrArg Prod.fst (Option.some.inj (here.symm.trans here'))
    exact ((recalls.tracks.symbols name _).mpr ⟨handle, id, m, present, text ▸ listed, rfl⟩).symm
  | none =>
    cases taken : engine.symbols.lookup name with
    | none => rfl
    | some target =>
      obtain ⟨handle, id, m, present, listed, rfl⟩ := (recalls.tracks.symbols name target).mp taken
      obtain ⟨loaded, here⟩ := (recalls.texts handle m).mp present.1
      have unfound := List.findSome?_eq_none_iff.mp found handle ((recalls.present handle).mpr ⟨m, present⟩)
      simp [here, listed] at unfound

theorem quiet {event : Event} (unadded : ∀ handle m, event ≠ .added handle m) (unremoved : ∀ handle, event ≠ .removed handle) :
    engine.Recalls (log ++ [event]) := by
  have same : of (log ++ [event]) = of log := by
    rw [ofSnoc]
    cases event with
    | added handle m => exact absurd rfl (unadded handle m)
    | removed handle => exact absurd rfl (unremoved handle)
    | created | declared | defined | refused | missing => rfl
  have present (handle : Nat) (m : Module) : Present (log ++ [event]) handle m ↔ Present log handle m :=
    presentSnoc (unadded handle) (unremoved handle)
  have added (handle : Nat) (m : Module) : .added handle m ∈ log ++ [event] ↔ .added handle m ∈ log := by
    simp [(unadded handle m).symm]
  refine ⟨recalls.tracks.quiet unadded unremoved, ?_, ?_, ?_⟩
  · simpa only [same, added] using recalls.texts
  · simpa only [same, present] using recalls.present
  · simpa only [same, present] using recalls.linked

theorem boundNew {log' : List Event} (later : (of log).Extends (of log')) (new : (of log').added[handle]? = some (m, (of log).loaded))
    (name : String) : (of log').bound? engine.platform.host handle name = engine.find? name := by
  rw [bound?, new, Option.bind_some, exporterLater later (ofOrdered log).loaded, recalls.exporterSymbols, find?]
  cases engine.symbols.lookup name <;> rfl

theorem grown (ok : engine.add m = .ok (handle, engine')) : engine'.Recalls (log ++ [.added handle m]) := by
  have tracks := recalls.tracks.grown ok
  have count := recalls.count
  obtain ⟨-, rfl, rfl⟩ := addOk ok
  have added : of (log ++ [.added engine.next m]) =
      ⟨(of log).added ++ [(m, (of log).loaded)], engine.next :: (of log).loaded⟩ := by
    rw [ofSnoc, note, count]
  have new : (of (log ++ [.added engine.next m])).added[engine.next]? = some (m, (of log).loaded) := by
    rw [added, ← count]
    exact List.getElem?_concat_length
  have later := ofExtends log [.added engine.next m]
  refine ⟨tracks, fun handle' m' => ?_, fun handle' => ?_, fun handle' m' loaded' present mem id => ?_⟩
  · rw [List.mem_append, List.mem_singleton, Event.added.injEq, recalls.texts]
    constructor
    · rintro (⟨loaded, here⟩ | ⟨rfl, rfl⟩)
      · have inside := (List.getElem?_eq_some_iff.mp here).1
        exact ⟨loaded, (addedLater later inside).trans here⟩
      · exact ⟨_, new⟩
    · rintro ⟨loaded, here⟩
      rw [added] at here
      rcases concatAt here with here | ⟨rfl, same⟩
      · exact .inl ⟨loaded, here⟩
      · exact .inr ⟨count, (Prod.mk.inj same).1⟩
  · simp only [added, List.mem_cons, recalls.present, recalls.tracks.presentGrown]
    constructor
    · rintro (rfl | ⟨m', present⟩)
      · exact ⟨m, .inl ⟨rfl, rfl⟩⟩
      · exact ⟨m', .inr ⟨(recalls.tracks.handleLess present.1).ne, present⟩⟩
    · rintro ⟨m', ⟨rfl, -⟩ | ⟨-, present⟩⟩
      · exact .inl rfl
      · exact .inr ⟨m', present⟩
  · rcases recalls.tracks.presentGrown.mp present with ⟨rfl, rfl⟩ | ⟨old, present⟩
    · rcases List.mem_cons.mp mem with same | mem
      · obtain rfl := (Prod.mk.inj same).2
        have bound := recalls.boundNew later new
        rw [load, List.getD_eq_getElem?_getD, List.getElem?_map, List.getElem?_zipIdx, callee?, function?, new, Option.bind_some]
        cases m'.functions[id]? with
        | none => rfl
        | some function =>
          simp only [Option.map_some, Option.getD_some, Option.bind_some, bound, bind, Nat.zero_add]
          cases function.body <;> rfl
      · have listed := (recalls.tracks.loads engine.next).mp (List.mem_map_of_mem mem)
        exact absurd (recalls.tracks.handleLess listed.choose_spec.1) (lt_irrefl _)
    · rcases List.mem_cons.mp mem with same | mem
      · exact absurd (Prod.mk.inj same).1 old
      · have inside : handle' < (of log).added.length := count.symm ▸ recalls.tracks.handleLess present.1
        rw [recalls.linked handle' m' loaded' present mem, calleeLater (ofOrdered log) later inside, function?, function?,
          addedLater later inside]

theorem shrunk (ok : engine.remove handle = .ok engine') : engine'.Recalls (log ++ [.removed handle]) := by
  have tracks := recalls.tracks.shrunk ok
  obtain ⟨loaded, found, rfl⟩ := removeOk ok
  have left : of (log ++ [.removed handle]) = { of log with loaded := (of log).loaded.filter (· ≠ handle) } := ofSnoc
  refine ⟨tracks, fun handle' m' => ?_, fun handle' => ?_, fun handle' m' loaded' present mem id => ?_⟩
  · rw [left, ← recalls.texts]
    simp
  · rw [left, List.mem_filter, recalls.present]
    simp only [decide_eq_true_eq, presentShrunk, exists_and_left]
    exact and_comm
  · rw [left]
    exact recalls.linked handle' m' loaded' (presentShrunk.mp present).2 (List.mem_filter.mp mem).1 id

theorem runRecord {host : Host} (given : engine.platform.host = host) (intact : (of log).Intact host handle)
    (depth id : Nat) (args : List Value) (memory : Memory) : engine.run depth (.loaded handle id) args memory =
      (of log).run host depth (.loaded handle id) args memory := by
  subst given
  induction depth generalizing handle id args memory with
  | zero => rfl
  | succ depth ih =>
    obtain ⟨m, present⟩ := (recalls.present handle).mp (intact handle .refl)
    obtain ⟨loaded, found⟩ := lookupIff.mpr ((recalls.tracks.loads handle).mpr ⟨m, present⟩)
    have linked := recalls.linked handle m loaded present (lookupMem found)
    rw [Engine.run, found, Chronicle.run]
    simp only [linked]
    cases ((of log).function? handle id).bind (·.body) with
    | none => rfl
    | some code =>
      refine congrArg (fun call => code.run ⟨call, engine.platform.host.fresh⟩ (.ofParams args) memory) (funext fun called =>
        funext fun args => funext fun memory => ?_)
      cases known : (of log).callee? engine.platform.host handle called with
      | none => rfl
      | some target =>
        cases target with
        | host address => cases depth <;> rfl
        | loaded other id =>
          -- what a provider uses, the module uses through it
          exact ih id args memory fun last uses => intact last (.head ⟨called, id, known⟩ uses)

end Engine.Recalls

namespace Workbench

theorem performRecalls {bench : Workbench} {log : List Event} (recalls : bench.engine.Recalls log) (action : Action) :
    (bench.perform action).2.engine.Recalls (log ++ [(bench.perform action).1]) := by
  rcases bench.performCases action with ⟨handle, m, event, ok⟩ | ⟨handle, event, ok⟩ | ⟨same, unadded, unremoved⟩
  · rw [event]
    exact recalls.grown ok
  · rw [event]
    exact recalls.shrunk ok
  · rw [same]
    exact recalls.quiet unadded unremoved

section Ran

variable {platform : Platform}

theorem ranRecalls (platform : Platform) (actions : List Action) : (ran platform actions).2.engine.Recalls (ran platform actions).1 := by
  induction actions using List.reverseRecOn with
  | nil => exact .start platform
  | append_singleton actions action ih =>
    rw [ranSnoc]
    exact performRecalls ih action

theorem ranRecord {actions : List Action} {handle : Nat} (intact : (of (ran platform actions).1).Intact platform.host handle)
    (depth id : Nat) (args : List Value) (memory : Memory) :
    (ran platform actions).2.engine.run depth (.loaded handle id) args memory =
      (of (ran platform actions).1).run platform.host depth (.loaded handle id) args memory :=
  (ranRecalls platform actions).runRecord (congrArg Platform.host (ranPlatform platform actions)) intact depth id
    args memory

theorem ranExtends (actions later : List Action) :
    ∃ more, (ran platform (actions ++ later)).1 = (ran platform actions).1 ++ more := by
  induction later using List.reverseRecOn with
  | nil => exact ⟨[], by rw [List.append_nil, List.append_nil]⟩
  | append_singleton later action ih =>
    obtain ⟨more, same⟩ := ih
    rw [← List.append_assoc, ranSnoc, step, same]
    exact ⟨more ++ _, List.append_assoc ..⟩

theorem ranBefore {actions : List Action} {before after : List Event} {event : Event}
    (split : (ran platform actions).1 = before ++ event :: after) :
    ∃ earlier action, (ran platform earlier).1 = before ∧ ((ran platform earlier).2.perform action).1 = event := by
  induction actions using List.reverseRecOn generalizing after with
  | nil => cases before <;> cases split
  | append_singleton actions action ih =>
    rw [ranSnoc, step] at split
    rcases List.eq_nil_or_concat after with rfl | ⟨rest, last, rfl⟩
    · obtain ⟨same, only⟩ := List.append_inj' split rfl
      exact ⟨actions, action, same, (List.cons.inj only).1⟩
    · rw [List.concat_eq_append, ← List.cons_append, ← List.append_assoc] at split
      exact ih (List.append_inj' split rfl).1

section Bound

variable {actions : List Action} {before after : List Event} {handle : Nat} {m : Module}
  (split : (ran platform actions).1 = before ++ .added handle m :: after)
include split

theorem boundFound : ∃ engine : Engine, engine.platform = platform ∧ engine.Tracks before ∧
    ∀ name, (of (ran platform actions).1).bound? platform.host handle name = engine.find? name := by
  obtain ⟨earlier, action, rfl, event⟩ := ranBefore split
  have recalls := ranRecalls platform earlier
  have given := ranPlatform platform earlier
  rcases (ran platform earlier).2.performCases action with ⟨handle', m', event', ok⟩ | ⟨handle', event', -⟩ | ⟨-, unadded, -⟩
  · obtain ⟨rfl, rfl⟩ := Event.added.inj (event'.symm.trans event)
    obtain ⟨-, rfl, -⟩ := Engine.addOk ok
    have first : (of ((ran platform earlier).1 ++ [.added (ran platform earlier).2.engine.next m'])).added[(ran platform earlier).2.engine.next]? =
        some (m', (of (ran platform earlier).1).loaded) := by
      rw [ofSnoc, note, ← recalls.count]
      exact List.getElem?_concat_length
    have inside := (List.getElem?_eq_some_iff.mp first).1
    have new := (addedLater (ofExtends _ after) inside).trans first
    rw [← List.append_cons, ← split] at new
    have bound := recalls.boundNew (split ▸ ofExtends _ _) new
    rw [given] at bound
    exact ⟨_, given, recalls.tracks, bound⟩
  · cases event'.symm.trans event
  · exact absurd event (unadded handle m)

theorem boundLoaded (name : String) (other id : Nat) :
    (of (ran platform actions).1).bound? platform.host handle name = some (.loaded other id) ↔
      ∃ m', Present before other m' ∧ m'.exports.reverse.lookup name = some id := by
  obtain ⟨engine, rfl, tracks, bound⟩ := boundFound split
  rw [bound, Engine.find?]
  constructor
  · intro found
    split at found
    · rename_i target taken
      obtain ⟨_, _, m', present, listed, rfl⟩ := (tracks.symbols name target).mp taken
      obtain ⟨rfl, rfl⟩ := Target.loaded.inj (Option.some.inj found)
      exact ⟨m', present, listed⟩
    · obtain ⟨_, -, same⟩ := Option.map_eq_some_iff.mp found
      cases same
  · rintro ⟨m', present, listed⟩
    rw [(tracks.symbols name _).mpr ⟨other, id, m', present, listed, rfl⟩]

theorem boundHost (name : String) (known : Nat) : (of (ran platform actions).1).bound? platform.host handle name = some (.host known) ↔
    (∀ other m', Present before other m' → name ∉ m'.exported) ∧ platform.host.symbol? name = some known := by
  obtain ⟨engine, rfl, tracks, bound⟩ := boundFound split
  rw [bound, Engine.find?]
  constructor
  · intro found
    split at found
    · rename_i target taken
      obtain ⟨_, _, _, -, -, rfl⟩ := (tracks.symbols name target).mp taken
      cases found
    · rename_i free
      obtain ⟨_, hosted, same⟩ := Option.map_eq_some_iff.mp found
      refine ⟨fun other m' present mem => ?_, Target.host.inj same ▸ hosted⟩
      obtain ⟨id, listed⟩ := exportedLookup.mp mem
      cases free.symm.trans ((tracks.symbols name _).mpr ⟨other, id, m', present, listed, rfl⟩)
  · rintro ⟨unexported, hosted⟩
    cases taken : engine.symbols.lookup name with
    | some target =>
      obtain ⟨other, id, m', present, listed, -⟩ := (tracks.symbols name target).mp taken
      exact absurd (exportedLookup.mpr ⟨id, listed⟩) (unexported other m' present)
    | none => rw [hosted]; rfl

end Bound

end Ran

end Workbench

open Workbench

/-- A call of an exported function of a module whose providers are all loaded does what the record of additions says:
a name that a module leaves open means what a module present at its addition exported under it, else what the host
has. No module that comes or goes makes a difference, neither later nor in another run that links the module alike. -/
theorem linksStable (platform : Platform) (actions : List Action) :
    let log := (ran platform actions).1
    let engine := (ran platform actions).2.engine
    (∀ before handle m after, log = before ++ .added handle m :: after → ∀ name,
      (∀ other id, (of log).bound? platform.host handle name = some (.loaded other id) ↔
        ∃ m', Present before other m' ∧ m'.exports.reverse.lookup name = some id) ∧
      ∀ known, (of log).bound? platform.host handle name = some (.host known) ↔
        (∀ other m', Present before other m' → name ∉ m'.exported) ∧ platform.host.symbol? name = some known) ∧
    ∀ handle m name, Present log handle m → (of log).Intact platform.host handle → name ∈ m.exported →
      ∃ id, m.exports.reverse.lookup name = some id ∧ engine.find? name = some (.loaded handle id) ∧
        (∀ depth args memory, engine.run depth (.loaded handle id) args memory =
          (of log).run platform.host depth (.loaded handle id) args memory) ∧
        (∀ later, let log' := (ran platform (actions ++ later)).1
          let engine' := (ran platform (actions ++ later)).2.engine
          (of log').Intact platform.host handle → engine'.find? name = some (.loaded handle id) ∧
            ∀ depth args memory, engine'.run depth (.loaded handle id) args memory =
              engine.run depth (.loaded handle id) args memory) ∧
        ∀ actions' handle', let log' := (ran platform actions').1
          let engine' := (ran platform actions').2.engine
          (of log').Intact platform.host handle' → Alike platform.host (of log) (of log') handle handle' →
            engine'.find? name = some (.loaded handle' id) ∧
              ∀ depth args memory, engine'.run depth (.loaded handle' id) args memory =
                engine.run depth (.loaded handle id) args memory := by
  intro log engine
  have recalls : engine.Recalls log := ranRecalls platform actions
  refine ⟨fun before handle m after split name => ⟨boundLoaded split name, boundHost split name⟩,
    fun handle m name present intact exported => ?_⟩
  obtain ⟨id, listed⟩ := exportedLookup.mp exported
  have found {engine' : Engine} {log' : List Event} {handle' : Nat} (tracks : engine'.Tracks log')
      (present : Present log' handle' m) : engine'.find? name = some (.loaded handle' id) := by
    rw [Engine.find?, (tracks.symbols name _).mpr ⟨handle', id, m, present, listed, rfl⟩]
  have elsewhere (actions' : List Action) (handle' : Nat) (intact' : (of (ran platform actions').1).Intact platform.host handle')
      (alike : Alike platform.host (of log) (of (ran platform actions').1) handle handle') :
      (ran platform actions').2.engine.find? name = some (.loaded handle' id) ∧
        ∀ depth args memory, (ran platform actions').2.engine.run depth (.loaded handle' id) args memory =
          engine.run depth (.loaded handle id) args memory := by
    have recalls' := ranRecalls platform actions'
    obtain ⟨m', present'⟩ := (recalls'.present handle').mp (intact' handle' .refl)
    have text : m' = m := by
      obtain @⟨_, _, linked, _, _, here, here', -, -⟩ := alike
      obtain ⟨_, known⟩ := (recalls.texts handle m).mp present.1
      obtain ⟨_, known'⟩ := (recalls'.texts handle' m').mp present'.1
      cases here.symm.trans known
      cases here'.symm.trans known'
      rfl
    refine ⟨found recalls'.tracks (text ▸ present'), fun depth args memory => ?_⟩
    rw [ranRecord intact', ranRecord intact]
    exact alike.runSame depth id args memory
  refine ⟨id, listed, found recalls.tracks present, fun depth args memory => ranRecord intact depth id args memory,
    fun later intact' => elsewhere _ handle intact' ?_, elsewhere⟩
  obtain ⟨more, same⟩ := ranExtends actions later
  have inside : handle < (of log).added.length := recalls.count.symm ▸ recalls.tracks.handleLess present.1
  exact alikeLater (ofOrdered log) (same ▸ ofExtends log more) inside

def bump (amount : Nat) : Emit Unit := do
  let ptr ← Emit.param 0
  let word ← Emit.load ptr 0 4
  let amount ← Emit.const 32 amount
  let sum ← Emit.binary .add 32 word amount
  Emit.store sum ptr 0 4

def lateProvider : List Action := [
  .create "importer", .declare 0 "bump" [.ptr] false, .declare 0 "twice" [.ptr] true,
  .define 0 1 (do let ptr ← Emit.param 0; Emit.call 0 [ptr]; Emit.call 0 [ptr]),
  .create "provider", .declare 1 "bump" [.ptr] true, .define 1 0 (bump 5), .add 1,
  .create "other", .declare 2 "other" [.ptr] true, .define 2 0 (bump 7), .add 2, .add 0]

def unrelated : List Action := [
  .remove 1, .create "rival", .declare 3 "bump" [.ptr] true, .define 3 0 (bump 11), .add 3,
  .create "another", .declare 4 "thrice" [.ptr] true, .define 4 0 (bump 13), .add 4]

theorem providerKept : (of (ran default lateProvider).1).Intact default 2 ∧ (of (ran default (lateProvider ++ unrelated)).1).Intact default 2 ∧
    (ran default (lateProvider ++ unrelated)).2.engine.find? "twice" = some (.loaded 2 1) ∧
      (ran default (lateProvider ++ unrelated)).2.engine.run 3 (.loaded 2 1) [.address 0 0] #[#[1, 0, 0, 0]] =
        .ok #[#[11, 0, 0, 0]] := by
  let importer : Module := {
    name := "importer"
    backend := default
    functions := [⟨"bump", [64], false, none⟩,
      ⟨"twice", [64], true, some (.define (.param 0) (.call 0 [0] (.call 0 [0] .done)))⟩]
    imports := ["bump"]
    exports := [("twice", 1)]
    listing := ["twice"] }
  have intact : ∀ handle ∈ [0, 2], (of (ran default lateProvider).1).Intact default handle :=
    intactWithin (by decide +kernel) (by decide +kernel)
  have intact' : ∀ handle ∈ [0, 2], (of (ran default (lateProvider ++ unrelated)).1).Intact default handle :=
    intactWithin (by decide +kernel) (by decide +kernel)
  have mem : 2 ∈ [0, 2] := by decide
  have added : (ran default lateProvider).1[12]? = some (.added 2 importer) := rfl
  have unremoved : (ran default lateProvider).1.countP Event.isRemoval = 0 := rfl
  have present : Present (ran default lateProvider).1 2 importer :=
    ⟨List.mem_of_getElem? added, fun mem => List.countP_eq_zero.mp unremoved _ mem rfl⟩
  obtain ⟨-, links⟩ := linksStable default lateProvider
  obtain ⟨id, listed, -, runs, kept, -⟩ := links 2 importer "twice" present (intact 2 mem) (by decide)
  obtain rfl : 1 = id := Option.some.inj listed
  obtain ⟨found, same⟩ := kept unrelated (intact' 2 mem)
  refine ⟨intact 2 mem, intact' 2 mem, found, ?_⟩
  rw [same, runs]
  decide +kernel

end CircuitSim
