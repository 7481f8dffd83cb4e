import CircuitSim.Link.Engine
import CircuitSim.Proofs.Result
import CircuitSim.Sim.Wrapper
import Mathlib.Data.List.Nodup

/-! From the steps of a build to the engine: a module only grows while it is built, so the code that a step has given
a function is what the linked function runs. -/
namespace CircuitSim

structure Module.Consistent (m : Module) : Prop where
  distinct : (m.functions.map (·.name)).Nodup
  exports : ∀ entry ∈ m.exports, ∃ function, m.functions[entry.2]? = some function ∧ function.name = entry.1

structure Module.Extends (m m' : Module) : Prop where
  functions : ∀ (id : Nat) (function : Function), m.functions[id]? = some function →
    ∃ function', m'.functions[id]? = some function' ∧ function'.name = function.name ∧
      ∀ code, function.body = some code → function'.body = some code
  exports : ∀ entry ∈ m.exports, entry ∈ m'.exports
  consistent : m.Consistent → m'.Consistent
  backend : m'.backend = m.backend

def Module.Names (allowed : String → Prop) (m : Module) : Prop := ∀ name ∈ m.functions.map (·.name), allowed name

def Module.Has (m : Module) (id : Nat) (body : Emit Unit) : Prop :=
  ∃ function code, m.functions[id]? = some function ∧ function.body = some code ∧ body.code = .ok code

def Module.Exports (m : Module) (name : String) (body : Emit Unit) : Prop :=
  ∃ id, (name, id) ∈ m.exports ∧ m.Has id body

namespace Module

variable {m m' m'' : Module}

theorem Extends.refl (m : Module) : m.Extends m :=
  ⟨fun _ function here => ⟨function, here, rfl, fun _ given => given⟩, fun _ mem => mem, id, rfl⟩

theorem Extends.trans (first : m.Extends m') (second : m'.Extends m'') : m.Extends m'' := by
  refine ⟨fun id function here => ?_, fun entry mem => second.exports entry (first.exports entry mem),
    fun consistent => second.consistent (first.consistent consistent), second.backend.trans first.backend⟩
  obtain ⟨function', here', name, body⟩ := first.functions id function here
  obtain ⟨function'', here'', name', body'⟩ := second.functions id function' here'
  exact ⟨function'', here'', name'.trans name, fun code given => body' code (body code given)⟩

theorem Extends.has (later : m.Extends m') {id : Nat} {body : Emit Unit} (has : m.Has id body) : m'.Has id body := by
  obtain ⟨function, code, here, given, emitted⟩ := has
  obtain ⟨function', here', -, body⟩ := later.functions id function here
  exact ⟨function', code, here', body code given, emitted⟩

theorem Extends.export (later : m.Extends m') {name : String} {body : Emit Unit} (known : m.Exports name body) :
    m'.Exports name body := by
  obtain ⟨id, mem, has⟩ := known
  exact ⟨id, later.exports _ mem, later.has has⟩

theorem functionAt {id : Nat} {function : Function} (here : m.functions[id]? = some function) :
    m.functions.getD id default = function := by
  rw [List.getD_eq_getElem?_getD, here, Option.getD_some]

theorem putSame {functions : List Function} {place : Nat} {old new : Function} (here : functions[place]? = some old)
    {α : Type} {part : Function → α} (same : part new = part old) :
    (functions.set place new).map part = functions.map part := by
  obtain ⟨inside, -⟩ := List.getElem?_eq_some_iff.mp here
  rw [List.map_set, same]
  apply List.ext_getElem?
  intro i
  rw [List.getElem?_set]
  split
  · rename_i own
    subst own
    rw [if_pos (by simpa using inside), List.getElem?_map, here, Option.map_some]
  · rfl

theorem putNames {functions : List Function} {place : Nat} {old new : Function} (here : functions[place]? = some old)
    (name : new.name = old.name) : (functions.set place new).map (·.name) = functions.map (·.name) :=
  putSame here name

theorem putExtends {place : Nat} {old new : Function} (here : m.functions[place]? = some old)
    (put : m'.functions = m.functions.set place new) (listed : m'.exports = m.exports)
    (backend : m'.backend = m.backend) (name : new.name = old.name)
    (body : ∀ code, old.body = some code → new.body = some code) : m.Extends m' := by
  obtain ⟨inside, -⟩ := List.getElem?_eq_some_iff.mp here
  have kept : ∀ (id : Nat) (function : Function), m.functions[id]? = some function →
      ∃ function', m'.functions[id]? = some function' ∧ function'.name = function.name ∧
        ∀ code, function.body = some code → function'.body = some code := by
    intro id function found
    rw [put]
    by_cases own : place = id
    · subst own
      obtain rfl := Option.some.inj (here.symm.trans found)
      exact ⟨new, List.getElem?_set_self inside, name, body⟩
    · exact ⟨function, (List.getElem?_set_ne own).trans found, rfl, fun _ given => given⟩
  refine ⟨kept, fun _ mem => listed ▸ mem, fun consistent => ⟨?_, fun entry mem => ?_⟩, backend⟩
  · rw [put, putNames here name]
    exact consistent.distinct
  · obtain ⟨function, found, same⟩ := consistent.exports entry (listed ▸ mem)
    obtain ⟨function', found', same', -⟩ := kept entry.2 function found
    exact ⟨function', found', same'.trans same⟩

theorem pushExtends {new : Function} (fresh : ∀ function ∈ m.functions, function.name ≠ new.name) :
    m.Extends { m with functions := m.functions ++ [new] } := by
  have kept : ∀ (id : Nat) (function : Function), m.functions[id]? = some function →
      (m.functions ++ [new])[id]? = some function := by
    intro id function found
    obtain ⟨inside, -⟩ := List.getElem?_eq_some_iff.mp found
    exact (List.getElem?_append_left inside).trans found
  refine ⟨fun id function found => ⟨function, kept id function found, rfl, fun _ given => given⟩, fun _ mem => mem,
    fun consistent => ⟨?_, fun entry mem => ?_⟩, rfl⟩
  · simp only [List.map_append, List.map_cons, List.map_nil]
    refine List.nodup_append.mpr ⟨consistent.distinct, List.nodup_singleton _, ?_⟩
    rintro a mem b single rfl
    obtain ⟨function, known, rfl⟩ := List.mem_map.mp mem
    exact fresh function known (List.mem_singleton.mp single)
  · obtain ⟨function, found, same⟩ := consistent.exports entry mem
    exact ⟨function, kept _ function found, same⟩

theorem exportExtends {id : Nat} {function : Function} {name : String} (here : m.functions[id]? = some function)
    (named : function.name = name) : m.Extends { m with exports := m.exports ++ [(name, id)] } := by
  refine ⟨fun id function found => ⟨function, found, rfl, fun _ given => given⟩,
    fun entry mem => List.mem_append_left _ mem,
    fun consistent => ⟨consistent.distinct, fun entry mem => ?_⟩, rfl⟩
  rcases List.mem_append.mp mem with before | last
  · exact consistent.exports entry before
  · obtain rfl := List.mem_singleton.mp last
    exact ⟨function, here, named⟩

def list (m : Module) (name : String) (id : Nat) (exported : Bool) : Module :=
  if exported then { m with exports := m.exports ++ [(name, id)] } else { m with imports := m.imports ++ [name] }

theorem listFunctions (name : String) (id : Nat) (exported : Bool) : (m.list name id exported).functions = m.functions := by
  cases exported <;> rfl

end Module

namespace Build

variable {α β : Type} {m m' : Module}

def Runs (b : Build α) (m : Module) (a : α) (m' : Module) : Prop := b.run m = (.ok a, m')

theorem runBind (b : Build α) (next : α → Build β) (m : Module) : (b >>= next).run m =
    match b.run m with
    | (.ok a, between) => (next a).run between
    | (.error fault, between) => (.error fault, between) := by
  have step : (b >>= next).run m = @StateT.bind Module Id _ _ _ b.run (ExceptT.bindCont next) m := rfl
  rw [step]
  unfold StateT.bind
  rcases b.run m with ⟨fault | a, between⟩
  · rfl
  · rfl

theorem runGet (next : Module → Build β) (m : Module) : (get >>= next).run m = (next m).run m := rfl

theorem runSet (now : Module) (next : PUnit → Build β) (m : Module) :
    (set now >>= next).run m = (next ⟨⟩).run now := rfl

theorem runLift (a : α) (next : α → Build β) (m : Module) : (lift (.ok a) >>= next).run m = (next a).run m := rfl

theorem runsBind {b : Build α} {next : α → Build β} {r : β} (ran : (b >>= next).Runs m r m') :
    ∃ a between, b.Runs m a between ∧ (next a).Runs between r m' := by
  unfold Runs at ran
  rw [runBind] at ran
  split at ran
  · rename_i a between first
    exact ⟨a, between, first, ran⟩
  · exact nomatch ran

theorem runAfter {b : Build α} {next : α → Build β} {between : Module} {a : α} (first : b.Runs m a between) :
    (b >>= next).run m = (next a).run between := by
  unfold Runs at first
  rw [runBind, first]

theorem runsSame {b : Build α} {a a' : α} {n n' : Module} (ran : b.Runs m a n) (ran' : b.Runs m a' n') :
    a = a' ∧ n = n' := by
  obtain ⟨same, same'⟩ := Prod.mk.inj (Eq.trans (Eq.symm ran) ran')
  exact ⟨Except.ok.inj same, same'⟩

theorem runsPure {a b : α} (ran : (Pure.pure a : Build α).Runs m b m') : b = a ∧ m' = m := by
  obtain ⟨first, second⟩ := Prod.mk.inj ran
  exact ⟨(Except.ok.inj first).symm, second.symm⟩

theorem runsDiscard {b : Build α} {r : Unit} (ran : (discard b).Runs m r m') : ∃ a, b.Runs m a m' := by
  have same : discard b = b >>= fun _ => pure () := rfl
  rw [same] at ran
  obtain ⟨a, between, first, last⟩ := runsBind ran
  obtain ⟨-, rfl⟩ := runsPure last
  exact ⟨a, first⟩

theorem runsLift {result : Except Fault α} {next : α → Build β} {r : β} (ran : (lift result >>= next).Runs m r m') :
    ∃ a, result = .ok a ∧ (next a).Runs m r m' := by
  obtain ⟨a, between, lifted, rest⟩ := runsBind ran
  obtain ⟨first, same⟩ := Prod.mk.inj lifted
  exact ⟨a, first, same ▸ rest⟩

theorem runsForM {related : Module → Module → Prop} (refl : ∀ m, related m m)
    (trans : ∀ {m m' m''}, related m m' → related m' m'' → related m m'') {f : α → Build PUnit} {xs : List α}
    {r : PUnit} (ran : (xs.forM f).Runs m r m') (each : ∀ {x m m' r}, (f x).Runs m r m' → related m m') :
    related m m' ∧ ∀ x ∈ xs, ∃ before r after, (f x).Runs before r after := by
  induction xs generalizing m with
  | nil =>
    obtain ⟨-, rfl⟩ := runsPure ran
    exact ⟨refl m', nofun⟩
  | cons x rest ih =>
    obtain ⟨r', between, first, ran⟩ := runsBind ran
    obtain ⟨later, all⟩ := ih ran
    refine ⟨trans (each first) later, fun y mem => ?_⟩
    rcases List.mem_cons.mp mem with rfl | behind
    · exact ⟨m, r', between, first⟩
    · exact all y behind

theorem declareRun (name : String) (params : List Param) (exported : Bool) (m : Module) :
    (declare name params exported).run m =
      match m.functions.findIdx? (·.name = name) with
      | some id =>
        let old := m.functions.getD id default
        let merged : Module := { m with functions := m.functions.set id { old with definable := old.definable || exported } }
        if old.signature ≠ params.map Param.bits then (.error (.codegen (.conflicting name)), merged)
        else (.ok id, merged.list name id exported)
      | none =>
        let grown : Module := { m with functions := m.functions ++ [⟨name, params.map Param.bits, exported, none⟩] }
        (.ok m.functions.length, grown.list name m.functions.length exported) := by
  unfold declare
  rw [runGet]
  cases found : m.functions.findIdx? (·.name = name) with
  | none => rfl
  | some id =>
    simp only [runSet]
    by_cases same : (m.functions.getD id default).signature = params.map Param.bits
    · rw [if_neg (not_not.mpr same)]
      simp only [ne_eq, same, not_true_eq_false, if_false, pure_bind]
      rfl
    · simp only [ne_eq, same, not_false_eq_true, if_true]
      rfl

theorem declareCases (m : Module) (name : String) (params : List Param) (exported : Bool) :
    (∃ id, ∃ old : Function, m.functions[id]? = some old ∧ old.name = name ∧
      let merged : Module := { m with functions := m.functions.set id { old with definable := old.definable || exported } }
      (declare name params exported).run m = (.error (.codegen (.conflicting name)), merged) ∨
        (declare name params exported).run m = (.ok id, merged.list name id exported)) ∨
    (∀ function ∈ m.functions, function.name ≠ name) ∧
      let grown : Module := { m with functions := m.functions ++ [⟨name, params.map Param.bits, exported, none⟩] }
      (declare name params exported).run m = (.ok m.functions.length, grown.list name m.functions.length exported) := by
  have ran := declareRun name params exported m
  cases found : m.functions.findIdx? (·.name = name) with
  | some id =>
    obtain ⟨inside, same, -⟩ := List.findIdx?_eq_some_iff_getElem.mp found
    have old : m.functions.getD id default = m.functions[id] := by
      rw [List.getD_eq_getElem?_getD, List.getElem?_eq_getElem inside, Option.getD_some]
    simp only [found, old] at ran
    refine .inl ⟨id, _, List.getElem?_eq_getElem inside, of_decide_eq_true same, ?_⟩
    split at ran
    · exact .inl ran
    · exact .inr ran
  | none =>
    rw [found] at ran
    exact .inr ⟨fun function mem => by simpa using List.findIdx?_eq_none_iff.mp found function mem, ran⟩

theorem defineCases (m : Module) (id : Nat) (body : Emit Unit) :
    (∃ fault listing unfinished, (define id body).run m = (.error fault, { m with listing, unfinished })) ∨
    ∃ function code, m.functions[id]? = some function ∧ function.body = none ∧ body.code = .ok code ∧
      m.backend.refusal? m.unfinished function.signature code = none ∧
      (define id body).run m = (.ok (), { m with
        functions := m.functions.set id { function with body := some code }
        listing := m.listing ++ [function.name]
        unfinished := false }) := by
  unfold define
  rw [runGet]
  cases here : m.functions[id]? with
  | none => exact .inl ⟨_, m.listing, m.unfinished, rfl⟩
  | some function =>
    simp only [runSet]
    cases emitted : body.code with
    | error fault => exact .inl ⟨fault, m.listing, true, rfl⟩
    | ok code =>
      simp only [runLift, runSet]
      cases definable : function.definable with
      | false => exact .inl ⟨.codegen (.imported function.name), m.listing ++ [function.name], false, rfl⟩
      | true =>
        cases taken : function.body with
        | some code' => exact .inl ⟨.codegen (.redefined function.name), m.listing ++ [function.name], false, rfl⟩
        | none =>
          cases refused : m.backend.refusal? m.unfinished function.signature code with
          | some text => exact .inl ⟨.codegen (.other text), m.listing ++ [function.name], false, rfl⟩
          | none => exact .inr ⟨function, code, rfl, taken, rfl, refused, by simp only [definable]; rfl⟩

theorem declareRuns {name : String} {params : List Param} {id : Nat} (ran : (declare name params true).Runs m id m') :
    m.Extends m' ∧ (name, id) ∈ m'.exports ∧ m'.functions.map (·.name) ⊆ name :: m.functions.map (·.name) := by
  rcases declareCases m name params true with ⟨place, old, here, named, refused | found⟩ | ⟨unused, made⟩
  · exact nomatch refused.symm.trans ran
  · cases found.symm.trans ran
    obtain ⟨inside, -⟩ := List.getElem?_eq_some_iff.mp here
    have declared : m.Extends { m with
        functions := m.functions.set id { old with definable := old.definable || true } } :=
      Module.putExtends here rfl rfl rfl rfl fun _ given => given
    have names : (m.functions.set id { old with definable := old.definable || true }).map (·.name) =
        m.functions.map (·.name) := Module.putNames here rfl
    refine ⟨declared.trans (Module.exportExtends (List.getElem?_set_self inside) named),
      List.mem_append_right _ List.mem_cons_self, ?_⟩
    exact names ▸ List.subset_cons_self _ _
  · cases made.symm.trans ran
    refine ⟨(Module.pushExtends ?_).trans (Module.exportExtends List.getElem?_concat_length ?_),
      List.mem_append_right _ List.mem_cons_self, ?_⟩
    · exact unused
    · rfl
    · intro other mem
      rw [Module.listFunctions, List.map_append] at mem
      rcases List.mem_append.mp mem with before | last
      · exact List.mem_cons_of_mem name before
      · exact List.mem_singleton.mp last ▸ List.mem_cons_self

theorem defineFinished {id : Nat} {body : Emit Unit} {r : Unit} (ran : (define id body).Runs m r m') :
    m'.unfinished = false := by
  rcases defineCases m id body with ⟨fault, listing, unfinished, refused⟩ | ⟨function, code, -, -, -, -, defined⟩
  · exact nomatch refused.symm.trans ran
  · cases defined.symm.trans ran
    rfl

theorem defineRuns {id : Nat} {body : Emit Unit} {r : Unit} (ran : (define id body).Runs m r m') :
    m.Extends m' ∧ m'.Has id body ∧ m'.functions.map (·.name) = m.functions.map (·.name) := by
  rcases defineCases m id body with ⟨fault, listing, unfinished, refused⟩ | ⟨function, code, here, empty, emitted, -, defined⟩
  · exact nomatch refused.symm.trans ran
  · cases defined.symm.trans ran
    obtain ⟨inside, -⟩ := List.getElem?_eq_some_iff.mp here
    refine ⟨Module.putExtends here rfl rfl rfl ?_ ?_, ?_, Module.putNames here ?_⟩
    · rfl
    · rw [empty]
      exact fun _ => nofun
    · exact ⟨_, code, List.getElem?_set_self inside, rfl, emitted⟩
    · rfl

theorem graphRuns {graph : Graph} {functions : GraphFunctions} (ran : (Build.graph graph).Runs m functions m') :
    m.Extends m' ∧ m'.Has functions.compute graph.computeBody ∧ m'.Has functions.update graph.updateBody := by
  obtain ⟨compute, m₁, declared, ran⟩ := runsBind ran
  obtain ⟨update, m₂, declared', ran⟩ := runsBind ran
  obtain ⟨_, m₃, defined, ran⟩ := runsBind ran
  obtain ⟨_, m₄, defined', ran⟩ := runsBind ran
  obtain ⟨rfl, rfl⟩ := runsPure ran
  obtain ⟨first, -⟩ := declareRuns declared
  obtain ⟨second, -⟩ := declareRuns declared'
  obtain ⟨third, has, -⟩ := defineRuns defined
  obtain ⟨fourth, has', -⟩ := defineRuns defined'
  exact ⟨((first.trans second).trans third).trans fourth, fourth.has has, has'⟩

theorem graphFinished {graph : Graph} {functions : GraphFunctions} (ran : (Build.graph graph).Runs m functions m') :
    m'.unfinished = false := by
  obtain ⟨_, _, _, ran⟩ := runsBind ran
  obtain ⟨_, _, _, ran⟩ := runsBind ran
  obtain ⟨_, _, _, ran⟩ := runsBind ran
  obtain ⟨_, _, defined, ran⟩ := runsBind ran
  obtain ⟨-, rfl⟩ := runsPure ran
  exact defineFinished defined

theorem graphNames {graph : Graph} {functions : GraphFunctions} (ran : (Build.graph graph).Runs m functions m')
    {allowed : String → Prop} (compute : allowed graph.computeSymbol) (update : allowed graph.updateSymbol)
    (named : m.Names allowed) : m'.Names allowed := by
  obtain ⟨_, m₁, declared, ran⟩ := runsBind ran
  obtain ⟨_, m₂, declared', ran⟩ := runsBind ran
  obtain ⟨_, m₃, defined, ran⟩ := runsBind ran
  obtain ⟨_, m₄, defined', ran⟩ := runsBind ran
  obtain ⟨-, rfl⟩ := runsPure ran
  obtain ⟨-, -, same⟩ := defineRuns defined
  obtain ⟨-, -, same'⟩ := defineRuns defined'
  intro name mem
  rw [same', same] at mem
  obtain ⟨-, -, new⟩ := declareRuns declared
  obtain ⟨-, -, new'⟩ := declareRuns declared'
  rcases List.mem_cons.mp (new' mem) with rfl | before
  · exact update
  · rcases List.mem_cons.mp (new before) with rfl | before
    · exact compute
    · exact named name before

theorem captureRuns {graph : Graph} {layout : Layout} {id : Nat} (ran : (Build.capture graph layout).Runs m id m') :
    m.Extends m' ∧ m'.Has id (graph.captureBody layout) := by
  obtain ⟨_, m₁, declared, ran⟩ := runsBind ran
  obtain ⟨_, m₂, defined, ran⟩ := runsBind ran
  obtain ⟨rfl, rfl⟩ := runsPure ran
  obtain ⟨later, has, -⟩ := defineRuns defined
  exact ⟨(declareRuns declared).1.trans later, has⟩

def Captures (m : Module) (inputs : Layout) : Option Nat → Option String → Prop
  | none, name => name = none
  | some id, name => ∃ symbol, name = some symbol ∧ m.Exports symbol (Wrapper.captureBody inputs id)

theorem wrapperRuns {name : String} {params : Nat} {body : Emit Unit} {r : Unit}
    (ran : (wrapper name params body).Runs m r m') : m.Extends m' ∧ m'.Exports name body := by
  obtain ⟨id, m₁, declared, defined⟩ := runsBind ran
  obtain ⟨first, mem, -⟩ := declareRuns declared
  obtain ⟨second, has, -⟩ := defineRuns defined
  exact ⟨first.trans second, id, second.exports _ mem, has⟩

theorem introduceNames {name : String} {params : List Param} {id id' : Nat} {between : Module} {body : Emit Unit}
    {r : Unit} (declared : (declare name params true).Runs m id between) (defined : (define id' body).Runs between r m')
    {allowed : String → Prop} (own : allowed name) (named : m.Names allowed) : m'.Names allowed := by
  obtain ⟨-, -, new⟩ := declareRuns declared
  obtain ⟨-, -, same⟩ := defineRuns defined
  intro other mem
  rw [same] at mem
  rcases List.mem_cons.mp (new mem) with rfl | before
  · exact own
  · exact named other before

theorem wrapperNames {name : String} {params : Nat} {body : Emit Unit} {r : Unit}
    (ran : (wrapper name params body).Runs m r m') {allowed : String → Prop} (own : allowed name)
    (named : m.Names allowed) : m'.Names allowed := by
  obtain ⟨id, m₁, declared, defined⟩ := runsBind ran
  exact introduceNames declared defined own named

theorem wrappersRuns {name : String} {functions : GraphFunctions} {inputs outputs : Layout} {capture : Option Nat}
    {symbols : Symbols} (ran : (wrappers name functions inputs outputs capture).Runs m symbols m') :
    m.Extends m' ∧ m'.Exports symbols.compute (Wrapper.computeBody inputs outputs functions.compute) ∧
      m'.Exports symbols.update (Wrapper.updateBody inputs functions.update) ∧
        Captures m' inputs capture symbols.capture := by
  obtain ⟨_, m₁, wrapped, ran⟩ := runsBind ran
  obtain ⟨_, m₂, wrapped', ran⟩ := runsBind ran
  obtain ⟨first, compute⟩ := wrapperRuns wrapped
  obtain ⟨second, update⟩ := wrapperRuns wrapped'
  cases capture with
  | none =>
    obtain ⟨rfl, rfl⟩ := runsPure ran
    exact ⟨first.trans second, second.export compute, update, rfl⟩
  | some id =>
    obtain ⟨_, m₃, wrapped'', ran⟩ := runsBind ran
    obtain ⟨rfl, rfl⟩ := runsPure ran
    obtain ⟨third, captured⟩ := wrapperRuns wrapped''
    exact ⟨(first.trans second).trans third, third.export (second.export compute), third.export update, _, rfl,
      captured⟩

end Build

/- Calling the function runs the code of one body, and its calls of a callee run the code of another. -/
def Engine.WrapsAt (engine : Engine) (name : String) (outer : Nat → Emit Unit) (inner : Emit Unit) (callee : Nat) : Prop :=
  ∃ code code', (outer callee).code = .ok code ∧ inner.code = .ok code' ∧ ∃ context context' : Context,
    (∀ args memory, engine.invoke name args memory = code.run context (.ofParams args) memory) ∧
      (∀ args memory, context.call callee args memory = code'.run context' (.ofParams args) memory) ∧
        context.fresh = engine.platform.host.fresh ∧ context'.fresh = engine.platform.host.fresh

def Engine.Wraps (engine : Engine) (name : String) (outer : Nat → Emit Unit) (inner : Emit Unit) : Prop :=
  ∃ callee, engine.WrapsAt name outer inner callee

namespace Engine

theorem enterLookup (symbols : List (String × Target)) (name : String) (target : Target) (key : String) :
    (enter symbols name target).lookup key = if key = name then some target else symbols.lookup key := by
  by_cases own : key = name
  · rw [if_pos own, enter, own, List.lookup_cons_self]
  · have skipped : (key == name) = false := by simpa using own
    have kept : (symbols.filter (·.1 ≠ name)).lookup key = symbols.lookup key := by
      induction symbols with
      | nil => rfl
      | cons entry rest ih =>
        by_cases dropped : entry.1 = name
        · have other : (key == entry.1) = false := by simpa [dropped] using own
          rw [List.filter_cons_of_neg (by simpa using dropped), List.lookup_cons, other]
          exact ih
        · rw [List.filter_cons_of_pos (by simpa using dropped), List.lookup_cons, List.lookup_cons, ih]
    rw [if_neg own, enter, List.lookup_cons, skipped]
    exact kept

theorem exportsLookup {exports : List (String × Nat)} {symbols : List (String × Target)} {name : String} {id handle : Nat}
    (same : ∀ entry ∈ exports, entry.1 = name → entry.2 = id)
    (known : (name, id) ∈ exports ∨ symbols.lookup name = some (.loaded handle id)) :
    (exports.foldl (fun symbols (name, id) => enter symbols name (.loaded handle id)) symbols).lookup name =
      some (.loaded handle id) := by
  induction exports generalizing symbols with
  | nil =>
    rcases known with mem | found
    · exact nomatch mem
    · exact found
  | cons entry rest ih =>
    refine ih (fun other mem => same other (List.mem_cons_of_mem entry mem)) ?_
    by_cases own : name = entry.1
    · right
      rw [enterLookup, if_pos own, same entry List.mem_cons_self own.symm]
    · rcases known with mem | found
      · rcases List.mem_cons.mp mem with rfl | later
        · exact absurd rfl own
        · exact .inl later
      · right
        rw [enterLookup, if_neg own, found]

def linked (engine : Engine) (loaded : LoadedModule) (depth : Nat) : Context where
  call callee args memory :=
    match (loaded.functions.getD callee default).target with
    | some target => engine.run depth target args memory
    | none => .error .noFunction
  fresh := engine.platform.host.fresh

theorem runLoaded {engine : Engine} {loaded : LoadedModule} {handle id depth : Nat} {code : Code} {target : Option Target}
    (found : engine.modules.lookup handle = some loaded) (here : loaded.functions.getD id default = ⟨some code, target⟩)
    (args : List Value) (memory : Memory) : engine.run (depth + 1) (.loaded handle id) args memory =
      code.run (engine.linked loaded depth) (.ofParams args) memory := by
  unfold run
  simp only [found, here]
  rfl

theorem addPlatform {engine engine' : Engine} {m : Module} {handle : Nat} (added : engine.add m = .ok (handle, engine')) :
    engine'.platform = engine.platform := by
  unfold add at added
  split at added
  · cases added
  · cases added
    rfl

theorem addWrapsAt {platform : Platform} {m : Module} {engine : Engine} {handle : Nat}
    (added : (empty platform).add m = .ok (handle, engine))
    (consistent : m.Consistent) {name : String} {outer : Nat → Emit Unit} {inner : Emit Unit} {callee : Nat}
    (known : m.Exports name (outer callee)) (has : m.Has callee inner) : engine.WrapsAt name outer inner callee := by
  obtain ⟨id, exported, function, code, here, body, emitted⟩ := known
  obtain ⟨function', code', here', body', emitted'⟩ := has
  unfold add at added
  split at added
  · exact nomatch added
  · obtain ⟨-, rfl⟩ := Prod.mk.inj (Except.ok.inj added)
    have same : ∀ entry ∈ m.exports, entry.1 = name → entry.2 = id := by
      intro entry mem named
      obtain ⟨own, found, own'⟩ := consistent.exports entry mem
      obtain ⟨other, found', other'⟩ := consistent.exports _ exported
      exact Result.indexInj consistent.distinct found found' (own'.trans (named.trans other'.symm))
    have symbol := @exportsLookup m.exports [] name id 0 same (.inl exported)
    have loaded : ∀ (id : Nat) (function : Function) (code : Code), m.functions[id]? = some function →
        function.body = some code → ((empty platform).load m).functions.getD id default = ⟨some code, some (.loaded 0 id)⟩ := by
      intro id function code here body
      simp only [load, List.getD_eq_getElem?_getD, List.getElem?_map, List.getElem?_zipIdx, here, Option.map_some,
        Option.getD_some, Nat.zero_add, bind, body]
      rfl
    let engine : Engine := {
      platform
      symbols := m.exports.foldl (fun symbols (name, id) => enter symbols name (.loaded 0 id)) []
      modules := [(0, (empty platform).load m)]
      next := 1 }
    have found : engine.modules.lookup 0 = some ((empty platform).load m) := rfl
    refine ⟨code, code', emitted, emitted', engine.linked ((empty platform).load m) 999999,
      engine.linked ((empty platform).load m) 999998, fun args memory => ?_, fun args memory => ?_, rfl, rfl⟩
    · have target : engine.find? name = some (.loaded 0 id) := by rw [find?, symbol]
      have ran := @runLoaded engine _ 0 id 999999 _ _ found (loaded id function code here body) args memory
      have depth : 999999 + 1 = stackDepth := rfl
      rw [← ran, depth]
      show engine.invoke name args memory = _
      rw [invoke, target]
    · have ran := @runLoaded engine _ 0 callee 999998 _ _ found (loaded callee function' code' here' body') args memory
      simp only [linked, loaded callee function' code' here' body']
      exact ran

theorem addWraps {platform : Platform} {m : Module} {engine : Engine} {handle : Nat}
    (added : (empty platform).add m = .ok (handle, engine))
    (consistent : m.Consistent) {name : String} {outer : Nat → Emit Unit} {inner : Emit Unit} {callee : Nat}
    (known : m.Exports name (outer callee)) (has : m.Has callee inner) : engine.Wraps name outer inner :=
  ⟨callee, addWrapsAt added consistent known has⟩

end Engine

end CircuitSim
