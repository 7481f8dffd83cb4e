import CircuitSim.Proofs.Outcome
import CircuitSim.Proofs.Workbench

/-! Adding a module: which names it may leave open. They are looked for with the loaded modules and the host, not in
the module itself, also where the module exports the name that it imports. Main statement: `importsResolve`. -/
namespace CircuitSim

def Module.listed (m : Module) : Bool → List String
  | true => m.exported
  | false => m.imports

/- Every export has got its body. -/
def Module.Defined (m : Module) : Prop :=
  ∀ entry ∈ m.exports, ∃ function, m.functions[entry.2]? = some function ∧ function.body.isSome

structure Module.Formed (m : Module) : Prop extends m.Consistent where
  listed : ∀ function ∈ m.functions, ∃ exported, function.name ∈ m.listed exported

namespace Module

variable {m : Module}

theorem createFormed (engine : Engine) (name : String) : (engine.create name).Formed where
  distinct := List.nodup_nil
  exports _ mem := nomatch mem
  listed _ mem := nomatch mem

theorem Formed.put (formed : m.Formed) {m' : Module} {place : Nat} {old new : Function}
    (here : m.functions[place]? = some old) (functions : m'.functions = m.functions.set place new)
    (name : new.name = old.name) (exports : m'.exports = m.exports) (imports : m'.imports = m.imports) : m'.Formed := by
  have lists (exported : Bool) : m'.listed exported = m.listed exported := by
    cases exported with
    | true => exact congrArg (List.map (·.1)) exports
    | false => exact imports
  refine ⟨⟨?_, fun entry mem => ?_⟩, fun function mem => ?_⟩
  · rw [functions, putNames here name]
    exact formed.distinct
  · obtain ⟨function, found, same⟩ := formed.exports entry (exports ▸ mem)
    rw [functions, List.getElem?_set]
    split
    · rename_i own
      subst own
      obtain ⟨inside, -⟩ := List.getElem?_eq_some_iff.mp here
      obtain rfl := Option.some.inj (here.symm.trans found)
      exact ⟨new, by rw [if_pos inside], name.trans same⟩
    · exact ⟨function, found, same⟩
  · simp only [lists]
    rcases List.mem_or_eq_of_mem_set (functions ▸ mem) with before | rfl
    · exact formed.listed function before
    · exact name ▸ formed.listed old (List.mem_of_getElem? here)

theorem listListed (name : String) (id : Nat) (exported kind : Bool) :
    (m.list name id exported).listed kind = m.listed kind ++ if exported = kind then [name] else [] := by
  cases exported with
  | true =>
    cases kind with
    | true => exact List.map_append
    | false => exact (List.append_nil _).symm
  | false =>
    cases kind with
    | true => exact (List.append_nil _).symm
    | false => rfl

theorem listExports {name : String} {id : Nat} {exported : Bool} {entry : String × Nat}
    (mem : entry ∈ (m.list name id exported).exports) : entry ∈ m.exports ∨ entry = (name, id) := by
  cases exported with
  | true => simpa [list] using mem
  | false => exact .inl mem

end Module

namespace Build

variable {m : Module}

variable {name : String}

theorem listFormed (formed : m.Formed) {id : Nat} {function : Function} (here : m.functions[id]? = some function)
    (named : function.name = name) (exported : Bool) : (m.list name id exported).Formed := by
  have functions := m.listFunctions name id exported
  refine ⟨⟨functions ▸ formed.distinct, fun entry mem => ?_⟩, fun other mem => ?_⟩
  · rw [functions]
    rcases Module.listExports mem with before | rfl
    · exact formed.exports entry before
    · exact ⟨function, here, named⟩
  · obtain ⟨kind, before⟩ := formed.listed other (functions ▸ mem)
    refine ⟨kind, ?_⟩
    rw [Module.listListed]
    exact List.mem_append_left _ before

theorem growFormed (formed : m.Formed) {new : Function} (fresh : ∀ function ∈ m.functions, function.name ≠ new.name)
    (exported : Bool) :
    (({ m with functions := m.functions ++ [new] } : Module).list new.name m.functions.length exported).Formed := by
  let grown : Module := { m with functions := m.functions ++ [new] }
  have functions := grown.listFunctions new.name m.functions.length exported
  have consistent : grown.Consistent := (Module.pushExtends fresh).consistent formed.toConsistent
  refine ⟨⟨functions ▸ consistent.distinct, fun entry mem => ?_⟩, fun other mem => ?_⟩
  · rw [functions]
    rcases Module.listExports mem with before | rfl
    · exact consistent.exports entry before
    · exact ⟨new, List.getElem?_concat_length, rfl⟩
  · simp only [Module.listListed]
    rcases List.mem_append.mp (functions ▸ mem) with before | last
    · obtain ⟨kind, listed⟩ := formed.listed other before
      exact ⟨kind, List.mem_append_left _ listed⟩
    · obtain rfl := List.mem_singleton.mp last
      exact ⟨exported, List.mem_append_right _ (by rw [if_pos rfl]; exact List.mem_singleton_self _)⟩

theorem declareLists (formed : m.Formed) (name : String) (params : List Param) (exported : Bool) : ∃ m' : Module, m'.Formed ∧
    ((∃ fault, (declare name params exported).run m = (.error fault, m') ∧ ∀ kind, m'.listed kind = m.listed kind) ∨
      ∃ id, (declare name params exported).run m = (.ok id, m') ∧
        ∀ kind, m'.listed kind = m.listed kind ++ if exported = kind then [name] else []) := by
  rcases declareCases m name params exported with ⟨id, old, here, named, ran⟩ | ⟨fresh, ran⟩
  · let merged : Module := { m with functions := m.functions.set id { old with definable := old.definable || exported } }
    have kept : merged.Formed := formed.put here rfl rfl rfl rfl
    have lists (kind : Bool) : merged.listed kind = m.listed kind := by cases kind <;> rfl
    rcases ran with refused | ran
    · exact ⟨merged, kept, .inl ⟨_, refused, lists⟩⟩
    · obtain ⟨inside, -⟩ := List.getElem?_eq_some_iff.mp here
      refine ⟨_, listFormed kept (List.getElem?_set_self inside) named exported, .inr ⟨id, ran, fun kind => ?_⟩⟩
      rw [Module.listListed, lists]
  · refine ⟨_, growFormed formed fresh exported, .inr ⟨_, ran, fun kind => ?_⟩⟩
    rw [Module.listListed]
    cases kind <;> rfl

theorem defineLists (formed : m.Formed) (id : Nat) (body : Emit Unit) : ∃ result, ∃ m' : Module,
    (define id body).run m = (result, m') ∧ m'.Formed ∧ ∀ kind, m'.listed kind = m.listed kind := by
  rcases defineCases m id body with ⟨fault, listing, unfinished, ran⟩ | ⟨function, code, here, -, -, -, ran⟩
  · exact ⟨_, _, ran, ⟨⟨formed.distinct, formed.exports⟩, formed.listed⟩, fun kind => by cases kind <;> rfl⟩
  · exact ⟨_, _, ran, formed.put here rfl rfl rfl rfl, fun kind => by cases kind <;> rfl⟩

end Build

def Action.declares? (draft : Nat) (exported : Bool) : Action → Event → Option String
  | .declare place name _ kind, .declared _ => if place = draft ∧ kind = exported then some name else none
  | _, _ => none

namespace Workbench

/- The names of the declarations of one kind that have been accepted for a draft, in order. -/
def declarations (platform : Platform) (actions : List Action) (draft : Nat) (exported : Bool) : List String :=
  (actions.zip (ran platform actions).1).filterMap fun (action, event) => action.declares? draft exported event

theorem ranLength (platform : Platform) (actions : List Action) : (ran platform actions).1.length = actions.length := by
  induction actions using List.reverseRecOn with
  | nil => rfl
  | append_singleton actions action ih =>
    rw [ranSnoc, step, List.length_append, List.length_append, ih]
    rfl

theorem declarationsSnoc (platform : Platform) (actions : List Action) (action : Action) (draft : Nat) (exported : Bool) :
    declarations platform (actions ++ [action]) draft exported = declarations platform actions draft exported ++
      (action.declares? draft exported ((ran platform actions).2.perform action).1).toList := by
  rw [declarations, ranSnoc, step, List.zip_append (ranLength platform actions).symm, List.filterMap_append]
  rfl

theorem bornInside {drafts : List (Option Module)} {draft : Nat} {m : Module} (here : drafts.getD draft none = some m) :
    draft < drafts.length := by
  by_contra outside
  rw [List.getD_eq_default _ _ (Nat.le_of_not_lt outside)] at here
  cases here

structure Drafted (drafts : List (Option Module)) (names : Nat → Bool → List String) : Prop where
  formed : ∀ draft m, drafts.getD draft none = some m → m.Formed
  lists : ∀ draft m, drafts.getD draft none = some m → ∀ exported, m.listed exported = names draft exported
  unborn : ∀ draft, drafts.length ≤ draft → ∀ exported, names draft exported = []

namespace Drafted

variable {drafts : List (Option Module)} {names names' : Nat → Bool → List String} {draft : Nat}

theorem start (platform : Platform) : Drafted [] fun draft exported => declarations platform [] draft exported where
  formed _ _ here := nomatch here
  lists _ _ here := nomatch here
  unborn _ _ _ := rfl

variable (drafted : Drafted drafts names)
include drafted

theorem push {m : Module} (formed : m.Formed) (empty : ∀ exported, m.listed exported = []) :
    Drafted (drafts ++ [some m]) names := by
  have known {draft : Nat} {m' : Module} (here : (drafts ++ [some m]).getD draft none = some m') :
      drafts.getD draft none = some m' ∨ draft = drafts.length ∧ m' = m := by
    simp only [List.getD_eq_getElem?_getD, List.getElem?_append] at here ⊢
    split at here
    · exact .inl here
    · rename_i outside
      cases place : draft - drafts.length with
      | zero =>
        rw [place] at here
        exact .inr ⟨by omega, (Option.some.inj here).symm⟩
      | succ more =>
        rw [place] at here
        cases here
  refine ⟨fun draft m' here => ?_, fun draft m' here exported => ?_, fun draft outside => ?_⟩
  · rcases known here with old | ⟨rfl, rfl⟩
    · exact drafted.formed draft m' old
    · exact formed
  · rcases known here with old | ⟨rfl, rfl⟩
    · exact drafted.lists draft m' old exported
    · rw [empty, drafted.unborn _ le_rfl]
  · rw [List.length_append, List.length_singleton] at outside
    exact drafted.unborn draft (by omega)

theorem put (inside : draft < drafts.length) (others : ∀ other, other ≠ draft → names' other = names other)
    {slot : Option Module} (formed : ∀ m, slot = some m → m.Formed)
    (lists : ∀ m, slot = some m → ∀ exported, m.listed exported = names' draft exported) :
    Drafted (drafts.set draft slot) names' := by
  have known {other : Nat} {m : Module} (here : (drafts.set draft slot).getD other none = some m) :
      other = draft ∧ slot = some m ∨ other ≠ draft ∧ drafts.getD other none = some m := by
    rw [List.getD_eq_getElem?_getD, List.getElem?_set] at here
    split at here
    · rename_i own
      exact .inl ⟨own.symm, here⟩
    · rename_i apart
      exact .inr ⟨fun same => apart same.symm, here⟩
  refine ⟨fun other m here => ?_, fun other m here exported => ?_, fun other outside exported => ?_⟩
  · rcases known here with ⟨rfl, new⟩ | ⟨-, old⟩
    · exact formed m new
    · exact drafted.formed other m old
  · rcases known here with ⟨rfl, new⟩ | ⟨apart, old⟩
    · exact lists m new exported
    · rw [others other apart]
      exact drafted.lists other m old exported
  · rw [List.length_set] at outside
    rw [others other (by omega)]
    exact drafted.unborn other outside exported

end Drafted

variable {bench : Workbench} {names : Nat → Bool → List String}

theorem performDrafted (drafted : Drafted bench.drafts names) (action : Action) : Drafted (bench.perform action).2.drafts
    fun draft exported => names draft exported ++ (action.declares? draft exported (bench.perform action).1).toList := by
  cases action with
  | create name =>
    simp only [Action.declares?, Option.toList_none, List.append_nil]
    exact drafted.push (Module.createFormed bench.engine name) fun exported => by cases exported <;> rfl
  | declare place name params exported =>
    rw [perform, build]
    cases here : bench.drafts.getD place none with
    | none =>
      simp only [Action.declares?, Option.toList_none, List.append_nil]
      exact drafted
    | some m =>
      obtain ⟨m', formed, ⟨fault, ran, lists⟩ | ⟨id, ran, lists⟩⟩ :=
        Build.declareLists (drafted.formed place m here) name params exported
      · simp only [ran, Action.declares?, Option.toList_none, List.append_nil]
        refine drafted.put (bornInside here) (fun _ _ => rfl) (fun _ same => ?_) fun _ same kind => ?_
        · exact Option.some.inj same ▸ formed
        · rw [← Option.some.inj same, lists, drafted.lists place m here]
      · simp only [ran, Action.declares?]
        refine drafted.put (bornInside here) (fun other apart => ?_) (fun _ same => ?_) fun _ same kind => ?_
        · simp [apart.symm]
        · exact Option.some.inj same ▸ formed
        · rw [← Option.some.inj same, lists, drafted.lists place m here]
          by_cases own : exported = kind
          · rw [if_pos own, if_pos ⟨rfl, own⟩]
            rfl
          · rw [if_neg own, if_neg fun both => own both.2]
            rfl
  | define place id body =>
    simp only [Action.declares?, Option.toList_none, List.append_nil]
    rw [perform, build]
    cases here : bench.drafts.getD place none with
    | none => exact drafted
    | some m =>
      obtain ⟨result, m', ran, formed, lists⟩ := Build.defineLists (drafted.formed place m here) id body
      have left : Drafted (bench.drafts.set place (some m')) names := by
        refine drafted.put (bornInside here) (fun _ _ => rfl) (fun _ same => ?_) fun _ same kind => ?_
        · exact Option.some.inj same ▸ formed
        · rw [← Option.some.inj same, lists, drafted.lists place m here]
      simp only [ran]
      cases result with
      | ok _ => exact left
      | error fault => exact left
  | add place =>
    simp only [Action.declares?, Option.toList_none, List.append_nil]
    rw [perform]
    cases here : bench.drafts.getD place none with
    | none => exact drafted
    | some m =>
      have gone : Drafted (bench.drafts.set place none) names :=
        drafted.put (bornInside here) (fun _ _ => rfl) (fun _ same => by cases same) fun _ same => by cases same
      simp only
      cases bench.engine.add m with
      | ok _ => exact gone
      | error fault => exact gone
  | remove handle =>
    simp only [Action.declares?, Option.toList_none, List.append_nil]
    rw [perform]
    cases bench.engine.remove handle with
    | ok engine => exact drafted
    | error fault => exact drafted

theorem ranDrafted (platform : Platform) (actions : List Action) : Drafted (ran platform actions).2.drafts (declarations platform actions) := by
  induction actions using List.reverseRecOn with
  | nil => exact .start platform
  | append_singleton actions action ih =>
    have names : declarations platform (actions ++ [action]) = fun draft exported => declarations platform actions draft exported ++
        (action.declares? draft exported ((ran platform actions).2.perform action).1).toList :=
      funext fun draft => funext fun exported => declarationsSnoc platform actions action draft exported
    rw [names, ranSnoc]
    exact performDrafted ih action

end Workbench

/- A name that a loaded module exports. -/
def Taken (log : List Event) (name : String) : Prop := ∃ handle m, Present log handle m ∧ name ∈ m.exported

/- A name that stands for something outside of a module that is to be added. -/
def Provided (host : Host) (log : List Event) (name : String) : Prop := Taken log name ∨ (host.symbol? name).isSome

/- What becomes of a module, when some names are resolved and some are taken. -/
structure Engine.Decides (engine : Engine) (m : Module) (resolved taken : String → Prop) : Prop where
  unresolved : (∃ name, engine.add m = .error (.unresolvedSymbol name)) ↔ ∃ name ∈ m.imports, ¬resolved name
  duplicate : (∃ name, engine.add m = .error (.duplicateSymbol name)) ↔
    (∀ name ∈ m.imports, resolved name) ∧ ∃ name ∈ m.exported, taken name
  accepted : (∃ handle engine', engine.add m = .ok (handle, engine')) ↔
    (∀ name ∈ m.imports, resolved name) ∧ ∀ name ∈ m.exported, ¬taken name

/- What an accepted module has been linked to: an export is found as a function with a body, a function with a body is
its own, and one without is what the engine has found under its name. -/
structure Engine.Links (engine engine' : Engine) (handle : Nat) (m : Module) : Prop where
  exports : ∀ name ∈ m.exported, ∃ id function, m.functions[id]? = some function ∧ function.name = name ∧
    function.body.isSome ∧ engine'.find? name = some (.loaded handle id)
  functions : ∃ loaded, engine'.modules.lookup handle = some loaded ∧ ∀ (id : Nat) (function : Function),
    m.functions[id]? = some function → ∃ target, loaded.functions[id]? = some ⟨function.body, some target⟩ ∧
      if function.body.isSome then target = .loaded handle id else engine.find? function.name = some target

namespace Engine

variable {engine engine' : Engine} {m : Module} {handle : Nat} {resolved taken : String → Prop}

theorem addCases (engine : Engine) (m : Module) :
    (∃ name ∈ m.imports, ¬(engine.find? name).isSome ∧ engine.add m = .error (.unresolvedSymbol name)) ∨
    (∀ name ∈ m.imports, (engine.find? name).isSome) ∧
      ((∃ name ∈ m.exported, engine.exported name ∧ engine.add m = .error (.duplicateSymbol name)) ∨
        (∀ name ∈ m.exported, ¬engine.exported name) ∧ ∃ handle engine', engine.add m = .ok (handle, engine')) := by
  unfold add refusal?
  cases missing : m.imports.find? fun name => (engine.find? name).isNone with
  | some name =>
    have unknown := List.find?_some missing
    exact .inl ⟨name, List.mem_of_find?_eq_some missing, by simpa using unknown, rfl⟩
  | none =>
    have all : ∀ name ∈ m.imports, (engine.find? name).isSome := by
      simpa [List.find?_eq_none, Option.isSome_iff_ne_none] using missing
    refine .inr ⟨all, ?_⟩
    cases clash : m.exports.find? fun entry => engine.exported entry.1 with
    | some entry =>
      have known := List.find?_some clash
      simp only [Option.map_some]
      exact .inl ⟨entry.1, List.mem_map_of_mem (List.mem_of_find?_eq_some clash), by simpa using known, rfl⟩
    | none =>
      simp only [Option.map_none]
      exact .inr ⟨by simpa [List.find?_eq_none, Module.exported] using clash, _, _, rfl⟩

theorem decided (found : ∀ name, (engine.find? name).isSome ↔ resolved name)
    (exported : ∀ name, engine.exported name ↔ taken name) : engine.Decides m resolved taken := by
  have cases' := engine.addCases m
  simp only [found, exported] at cases'
  rcases cases' with ⟨name, mem, open', refused⟩ | ⟨all, ⟨name, mem, known, refused⟩ | ⟨free, handle, engine', ok⟩⟩
  · refine ⟨iff_of_true ⟨name, refused⟩ ⟨name, mem, open'⟩, iff_of_false ?_ fun both => open' (both.1 name mem),
      iff_of_false ?_ fun both => open' (both.1 name mem)⟩ <;> simp [refused]
  · refine ⟨iff_of_false ?_ fun ⟨name, mem, left⟩ => left (all name mem), iff_of_true ⟨name, refused⟩ ⟨all, name, mem, known⟩,
      iff_of_false ?_ fun both => both.2 name mem known⟩ <;> simp [refused]
  · refine ⟨iff_of_false ?_ fun ⟨name, mem, left⟩ => left (all name mem),
      iff_of_false ?_ fun ⟨_, name, mem, known⟩ => free name mem known, iff_of_true ⟨handle, engine', ok⟩ ⟨all, free⟩⟩ <;>
      simp [ok]

theorem decidedWithin (decides : engine.Decides m resolved taken) (own : String → Prop) :
    engine.Decides m (fun name => own name ∨ resolved name) taken ↔
      ((∃ name ∈ m.imports, own name ∧ ¬resolved name) → ∃ name ∈ m.imports, ¬own name ∧ ¬resolved name) := by
  constructor
  · rintro within ⟨name, mem, -, unresolved⟩
    obtain ⟨other, mem', left⟩ := within.unresolved.mp (decides.unresolved.mpr ⟨name, mem, unresolved⟩)
    exact ⟨other, mem', not_or.mp left⟩
  · intro outside
    have same : (∀ name ∈ m.imports, own name ∨ resolved name) ↔ ∀ name ∈ m.imports, resolved name := by
      refine ⟨fun all name mem => ?_, fun all name mem => .inr (all name mem)⟩
      by_contra unresolved
      obtain ⟨other, mem', left, left'⟩ := outside ⟨name, mem, (all name mem).resolve_right unresolved, unresolved⟩
      exact (all other mem').elim left left'
    have open' : (∃ name ∈ m.imports, ¬(own name ∨ resolved name)) ↔ ∃ name ∈ m.imports, ¬resolved name := by
      simpa only [not_forall, exists_prop] using not_congr same
    refine ⟨decides.unresolved.trans open'.symm, ?_, ?_⟩
    · rw [same]
      exact decides.duplicate
    · rw [same]
      exact decides.accepted

theorem addLinks (formed : m.Formed) (defined : m.Defined) (ok : engine.add m = .ok (handle, engine')) :
    engine.Links engine' handle m := by
  have found : ∀ name ∈ m.imports, (engine.find? name).isSome := by
    rcases engine.addCases m with ⟨_, -, -, refused⟩ | ⟨all, -⟩
    · cases ok.symm.trans refused
    · exact all
  obtain ⟨-, rfl, rfl⟩ := addOk ok
  refine ⟨fun name mem => ?_, engine.load m, List.lookup_cons_self, fun id function here => ?_⟩
  · obtain ⟨id, listed⟩ := exportedLookup.mp mem
    have entry : (name, id) ∈ m.exports := List.mem_reverse.mp (lookupMem listed)
    obtain ⟨function, here, named⟩ := formed.exports _ entry
    obtain ⟨function', here', body⟩ := defined _ entry
    cases here.symm.trans here'
    refine ⟨id, function, here, named, body, ?_⟩
    rw [find?, entered, listed]
    rfl
  · have loaded : (engine.load m).functions[id]? = some (engine.bind id function) := by
      simp [load, here]
    rw [loaded, bind]
    cases body : function.body with
    | some code => exact ⟨_, rfl, rfl⟩
    | none =>
      obtain ⟨exported, listed⟩ := formed.listed function (List.mem_of_getElem? here)
      cases exported with
      | false =>
        obtain ⟨target, known⟩ := Option.isSome_iff_exists.mp (found _ listed)
        exact ⟨target, by rw [known], known⟩
      | true =>
        obtain ⟨entry, mem, named⟩ := List.mem_map.mp listed
        obtain ⟨function', here', given⟩ := defined entry mem
        obtain ⟨function'', here'', named'⟩ := formed.exports entry mem
        cases here'.symm.trans here''
        -- the exported function of this name is this function
        obtain rfl := Result.indexInj formed.distinct here here' (named.symm.trans named'.symm)
        cases here.symm.trans here'
        simp [body] at given

end Engine

open Workbench

/-- A module is refused as unresolved exactly if one of its imports is provided neither by a loaded module nor by the
host, else as a duplicate exactly if a loaded module exports one of its exports, else it is accepted, and then each of
its functions is linked: to its own body if it has one. Imports and exports are the names that have been declared for
the module, in order, and one that is both is looked for outside like any other import. So a search that began in the
module would decide otherwise exactly where an import has no provider but the module, while every other import has one. -/
theorem importsResolve (platform : Platform) (actions : List Action) :
    let log := (ran platform actions).1
    let bench := (ran platform actions).2
    let engine := bench.engine
    ∀ draft m, bench.drafts.getD draft none = some m → m.Defined →
      (m.imports = declarations platform actions draft false ∧ m.exported = declarations platform actions draft true) ∧
      engine.Decides m (Provided platform.host log) (Taken log) ∧
      (∀ name, engine.add m = .error (.unresolvedSymbol name) → name ∈ m.imports ∧ ¬Provided platform.host log name) ∧
      (∀ name, engine.add m = .error (.duplicateSymbol name) → name ∈ m.exported ∧ Taken log name) ∧
      (∀ handle engine', engine.add m = .ok (handle, engine') → engine.Links engine' handle m) ∧
      (engine.Decides m (fun name => name ∈ m.exported ∨ Provided platform.host log name) (Taken log) ↔
        ((∃ name ∈ m.imports, name ∈ m.exported ∧ ¬Provided platform.host log name) →
          ∃ name ∈ m.imports, name ∉ m.exported ∧ ¬Provided platform.host log name)) := by
  intro log bench engine draft m here defined
  have tracks : engine.Tracks log := ranTracks platform actions
  have drafted := ranDrafted platform actions
  have taken : ∀ name, engine.exported name ↔ Taken log name := fun name => tracks.exportedIff
  have found : ∀ name, (engine.find? name).isSome ↔ Provided platform.host log name := fun name => by
    rw [Engine.findPresent, taken, ranPlatform]
    rfl
  have decides := Engine.decided (m := m) found taken
  refine ⟨⟨drafted.lists draft m here false, drafted.lists draft m here true⟩, decides, ?_, ?_,
    fun handle engine' ok => Engine.addLinks (drafted.formed draft m here) defined ok, Engine.decidedWithin decides _⟩
  · intro name refused
    rcases engine.addCases m with ⟨name', mem, open', refused'⟩ | ⟨-, ⟨_, -, -, refused'⟩ | ⟨-, _, _, ok⟩⟩
    · cases refused.symm.trans refused'
      exact ⟨mem, (found name).not.mp open'⟩
    · cases refused.symm.trans refused'
    · cases refused.symm.trans ok
  · intro name refused
    rcases engine.addCases m with ⟨_, -, -, refused'⟩ | ⟨-, ⟨name', mem, known, refused'⟩ | ⟨-, _, _, ok⟩⟩
    · cases refused.symm.trans refused'
    · cases refused.symm.trans refused'
      exact ⟨mem, (taken name).mp known⟩
    · cases refused.symm.trans ok

def hostImport : List Action := [
  .create "provider", .declare 0 "step" [.ptr] true, .define 0 0 (pure ()), .add 0,
  .create "user", .declare 1 "step" [.ptr] false, .declare 1 "malloc" [.ptr] false, .declare 1 "malloc" [.ptr] true,
  .declare 1 "go" [.ptr] true, .define 1 1 (pure ()), .define 1 2 (do let ptr ← Emit.param 0; Emit.call 0 [ptr])]

theorem hostImportLinks : ∃ m handle engine', (ran allocating hostImport).2.drafts.getD 1 none = some m ∧
    m.imports = ["step", "malloc"] ∧ m.exported = ["malloc", "go"] ∧
      (ran allocating hostImport).2.engine.add m = .ok (handle, engine') ∧ (ran allocating hostImport).2.engine.Links engine' handle m := by
  let user : Module := {
    name := "user"
    backend := default
    functions := [⟨"step", [64], false, none⟩, ⟨"malloc", [64], true, some .done⟩,
      ⟨"go", [64], true, some (.define (.param 0) (.call 0 [0] .done))⟩]
    imports := ["step", "malloc"]
    exports := [("malloc", 1), ("go", 2)]
    listing := ["malloc", "go"] }
  have here : (ran allocating hostImport).2.drafts.getD 1 none = some user := rfl
  have defined : user.Defined := by simp [user, Module.Defined]
  obtain ⟨⟨handle, engine'⟩, ok, -⟩ : ∃ added, (ran allocating hostImport).2.engine.add user = .ok added ∧
      (added.1 == 1) = true := Result.okAny (by decide +kernel)
  obtain ⟨-, -, -, -, links, -⟩ := importsResolve allocating hostImport 1 user here defined
  exact ⟨user, handle, engine', here, rfl, rfl, ok, links handle engine' ok⟩

def ownImport : List Action :=
  [.create "q", .declare 0 "g" [.ptr] false, .declare 0 "g" [.ptr] true, .define 0 0 (pure ())]

theorem ownImportRefused : ∃ m, (ran allocating ownImport).2.drafts.getD 0 none = some m ∧ m.Defined ∧
    (ran allocating ownImport).2.engine.add m = .error (.unresolvedSymbol "g") ∧
      ¬(ran allocating ownImport).2.engine.Decides m
        (fun name => name ∈ m.exported ∨ Provided allocating.host (ran allocating ownImport).1 name)
        (Taken (ran allocating ownImport).1) := by
  let own : Module := {
    name := "q"
    backend := default
    functions := [⟨"g", [64], true, some .done⟩]
    imports := ["g"]
    exports := [("g", 0)]
    listing := ["g"] }
  have here : (ran allocating ownImport).2.drafts.getD 0 none = some own := rfl
  have refused : (ran allocating ownImport).2.engine.add own = .error (.unresolvedSymbol "g") := rfl
  refine ⟨own, here, by simp [own, Module.Defined], refused, fun decides => ?_⟩
  obtain ⟨name, mem, left⟩ := decides.unresolved.mp ⟨"g", refused⟩
  exact left (.inl mem)

end CircuitSim
