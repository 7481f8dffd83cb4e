import CircuitSim.Proofs.Building
import CircuitSim.Proofs.Instantiation
import CircuitSim.Proofs.Naming
import CircuitSim.Proofs.Transparency

/-! The names that the functions of a build have. All come from the names of definitions, with something behind them,
and a build fails for them only: when a definition has the name of the wrappers. Main statement: `buildsIff`. -/
namespace CircuitSim

def functionNames (name : String) : List String := [name ++ "_compute_output", name ++ "_update_state"]

theorem functionNamesWrap (name : String) :
    functionNames (name ++ "_wrap") = [name ++ "_wrap_compute_output", name ++ "_wrap_update_state"] := by
  simp only [functionNames, String.append_assoc]
  rfl

theorem functionNamesOwn (name : String) : (functionNames name).Nodup ∧ ∀ other, name ≠ other →
    (functionNames name).Disjoint (functionNames other) := by
  -- the two families differ in their last letters
  have apart : ∀ name other : String, name ++ "_compute_output" ≠ other ++ "_update_state" := by
    intro name other same
    have ends : (name ++ "_compute_output").toList.getLast? = some 't' := Build.endsLike name rfl
    rw [same, @Build.endsLike other _ 'e' rfl] at ends
    exact absurd ends (by decide)
  refine ⟨by simp [functionNames, apart], fun other differs => ?_⟩
  intro symbol mem mem'
  simp only [functionNames, List.mem_cons, List.not_mem_nil, or_false] at mem mem'
  rcases mem with rfl | rfl
  · rcases mem' with same | same
    · exact differs ((String.append_left_inj _).mp same)
    · exact apart _ _ same
  · rcases mem' with same | same
    · exact apart _ _ same.symm
    · exact differs ((String.append_left_inj _).mp same)

theorem functionNamesNodup {names : List String} : (names.flatMap functionNames).Nodup ↔ names.Nodup := by
  rw [List.nodup_flatMap]
  constructor
  · rintro ⟨-, apart⟩
    refine apart.imp fun disjoint same => ?_
    subst same
    exact disjoint List.mem_cons_self List.mem_cons_self
  · exact fun distinct => ⟨fun name _ => (functionNamesOwn name).1, distinct.imp fun {name other} differs =>
      (functionNamesOwn name).2 other differs⟩

structure Module.Filled (m : Module) (backend : Backend) (names : List String) : Prop where
  functions : m.functions.map (·.name) = names
  exports : m.exports.map (·.1) = names
  imports : m.imports = []
  coded : ∀ function ∈ m.functions, function.body.isSome = true
  ready : m.Open backend

theorem Module.Filled.grow {m n : Module} {backend : Backend} {names names' : List String}
    (filled : m.Filled backend names) {new : List Function} (functions : n.functions = m.functions ++ new)
    (named : new.map (·.name) = names') (exports : n.exports.map (·.1) = m.exports.map (·.1) ++ names')
    (imports : n.imports = m.imports) (coded : ∀ function ∈ new, function.body.isSome = true) (ready : n.Open backend) :
    n.Filled backend (names ++ names') := by
  refine ⟨?_, ?_, imports.trans filled.imports, fun function mem => ?_, ready⟩
  · rw [functions, List.map_append, filled.functions, named]
  · rw [exports, filled.exports]
  · rw [functions] at mem
    rcases List.mem_append.mp mem with before | last
    · exact filled.coded function before
    · exact coded function last

theorem freshPair {names : List String} {first second : String} (fresh : (names ++ [first, second]).Nodup) :
    first ∉ names ∧ second ∉ names ++ [first] := by
  rw [← List.singleton_append, ← List.append_assoc] at fresh
  obtain ⟨before, -, apart⟩ := List.nodup_append.mp fresh
  obtain ⟨-, -, apart'⟩ := List.nodup_append.mp before
  exact ⟨fun mem => apart' _ mem _ (List.mem_singleton_self first) rfl,
    fun mem => apart _ mem _ (List.mem_singleton_self second) rfl⟩

namespace Build
open CircuitSim.Module

variable {m : Module} {backend : Backend} {names : List String} {name : String} {params : List Param}

theorem declareNew (fresh : name ∉ m.functions.map (·.name)) :
    (declare name params true).Runs m m.functions.length { m with
      functions := m.functions ++ [⟨name, params.map Param.bits, true, none⟩]
      exports := m.exports ++ [(name, m.functions.length)] } := by
  have missing := @namesMissing (· ∈ m.functions.map (·.name)) m (fun _ mem => mem) name fresh
  have ran := declareRun name params true m
  rw [missing] at ran
  exact ran

theorem defineNew {id : Nat} {function : Function} (here : m.functions[id]? = some function)
    (signed : function.signature = params.map Param.bits) (definable : function.definable = true)
    (empty : function.body = none) {body : Emit Unit} (takes : backend.Takes params body) (ready : m.Open backend) :
    ∃ code, (define id body).Runs m () { m with
      functions := m.functions.set id { function with body := some code }
      listing := m.listing ++ [function.name]
      unfinished := false } := by
  obtain ⟨code, emitted, taken⟩ := takes
  have ran := defineRun emitted here definable (by rw [ready.finished, ready.backend, signed, taken])
  rw [empty] at ran
  exact ⟨code, ran⟩

theorem graphFilled (filled : m.Filled backend names) {graph : Graph}
    (takes : backend.Takes graph.computeParams graph.computeBody)
    (takes' : backend.Takes graph.updateParams graph.updateBody)
    (fresh : (names ++ [graph.computeSymbol, graph.updateSymbol]).Nodup) : ∃ functions n,
      (Build.graph graph).Runs m functions n ∧
        n.Filled backend (names ++ [graph.computeSymbol, graph.updateSymbol]) := by
  obtain ⟨new, new'⟩ := freshPair fresh
  rw [← filled.functions] at new new'
  have ready := filled.ready
  -- both are declared before the first one is defined
  let compute : Function := ⟨graph.computeSymbol, graph.computeParams.map Param.bits, true, none⟩
  let update : Function := ⟨graph.updateSymbol, graph.updateParams.map Param.bits, true, none⟩
  let m₁ : Module := { m with
    functions := m.functions ++ [compute], exports := m.exports ++ [(graph.computeSymbol, m.functions.length)] }
  have first : (declare graph.computeSymbol graph.computeParams true).Runs m m.functions.length m₁ := declareNew new
  have second := @declareNew m₁ graph.updateSymbol graph.updateParams (by simpa [m₁, compute] using new')
  let m₂ : Module := { m₁ with
    functions := m₁.functions ++ [update], exports := m₁.exports ++ [(graph.updateSymbol, m₁.functions.length)] }
  obtain ⟨code, third⟩ := @defineNew m₂ backend _ m.functions.length compute (by simp [m₂, m₁]) rfl rfl rfl _ takes
    ⟨ready.finished, ready.backend⟩
  let m₃ : Module := { m₂ with
    functions := m₂.functions.set m.functions.length { compute with body := some code }
    listing := m₂.listing ++ [compute.name]
    unfinished := false }
  obtain ⟨code', fourth⟩ := @defineNew m₃ backend _ m₁.functions.length update (by simp [m₃, m₂, m₁]) rfl rfl rfl _
    takes' ⟨rfl, ready.backend⟩
  have all : (m₃.functions.set m₁.functions.length { update with body := some code' }) =
      m.functions ++ [{ compute with body := some code }, { update with body := some code' }] := by
    simp [m₃, m₂, m₁]
  exact ⟨_, _, (runAfter first).trans ((runAfter second).trans ((runAfter third).trans ((runAfter fourth).trans rfl))),
    filled.grow all rfl (by simp [m₃, m₂, m₁]) rfl (by simp) ⟨rfl, ready.backend⟩⟩

section Wrapping

variable {count : Nat} {body : Emit Unit} (takes : backend.Takes (List.replicate count .ptr) body)
include takes

theorem wrapperFilled (filled : m.Filled backend names) (fresh : name ∉ names) : ∃ n,
    (wrapper name count body).Runs m () n ∧ n.Filled backend (names ++ [name]) := by
  let new : Function := ⟨name, (List.replicate count Param.ptr).map Param.bits, true, none⟩
  let m₁ : Module := { m with functions := m.functions ++ [new], exports := m.exports ++ [(name, m.functions.length)] }
  have first : (declare name (List.replicate count .ptr) true).Runs m m.functions.length m₁ :=
    declareNew (filled.functions ▸ fresh)
  obtain ⟨code, second⟩ := @defineNew m₁ backend _ m.functions.length new (by simp [m₁]) rfl rfl rfl _ takes
    ⟨filled.ready.finished, filled.ready.backend⟩
  have all : m₁.functions.set m.functions.length { new with body := some code } =
      m.functions ++ [{ new with body := some code }] := by
    simp [m₁]
  exact ⟨_, (runAfter first).trans second,
    filled.grow all rfl (by simp [m₁]) rfl (by simp) ⟨rfl, filled.ready.backend⟩⟩

theorem wrapperTaken (filled : m.Filled backend names) (taken : name ∈ names) : ∃ fault n,
    (wrapper name count body).run m = (.error (.codegen fault), n) ∧
      (fault = .conflicting name ∨ fault = .redefined name) := by
  cases first : m.functions.findIdx? (·.name = name) with
  | none =>
    rw [← filled.functions] at taken
    obtain ⟨function, mem, same⟩ := List.mem_map.mp taken
    exact absurd same (by simpa using List.findIdx?_eq_none_iff.mp first function mem)
  | some id =>
    obtain ⟨function, here, found, named⟩ := findFirst first
    have coded := filled.coded function (List.mem_of_getElem? here)
    have known := @declareKnown m name (List.replicate count .ptr) id function first here named
    split at known
    · obtain ⟨n, failed⟩ := known
      exact ⟨.conflicting name, n, by rw [wrapper, runBind, failed], .inl rfl⟩
    · obtain ⟨n, declared, new⟩ := known
      obtain ⟨old, declares, signed⟩ := new.known
      -- declaring it once more has left the function its code
      have body : old.body.isSome = true := by
        have shape := new.shapes name
        rw [if_pos rfl, declares.shape, find?, found] at shape
        exact (Prod.mk.inj (Option.some.inj shape)).2.trans coded
      obtain ⟨last, failed⟩ := defineTaken declares signed body takes (new.ready backend filled.ready)
      exact ⟨.redefined name, last, (runAfter declared).trans failed, .inr rfl⟩

end Wrapping

section Wrappers

variable {inputs outputs : Layout} (wrappable : Wrappable backend inputs outputs) (functions : GraphFunctions)
include wrappable

theorem wrappersFilled (filled : m.Filled backend names) (fresh : (names ++ functionNames (name ++ "_wrap")).Nodup) :
    ∃ symbols n, (wrappers name functions inputs outputs none).Runs m symbols n ∧
      n.Filled backend (names ++ functionNames (name ++ "_wrap")) := by
  rw [functionNamesWrap] at fresh ⊢
  obtain ⟨new, new'⟩ := freshPair fresh
  obtain ⟨between, first, filled⟩ := wrapperFilled (wrappable.compute functions.compute) filled new
  obtain ⟨last, second, filled⟩ := wrapperFilled (wrappable.update functions.update) filled new'
  refine ⟨⟨name ++ "_wrap_compute_output", name ++ "_wrap_update_state", none⟩, last, ?_, ?_⟩
  · rw [wrappersGetter]
    exact (runAfter first).trans ((runAfter second).trans rfl)
  · rw [List.append_assoc] at filled
    exact filled

theorem wrappersTaken (filled : m.Filled backend (names.flatMap functionNames)) (taken : name ++ "_wrap" ∈ names) :
    ∃ fault n, (wrappers name functions inputs outputs none).run m = (.error (.codegen fault), n) ∧
      (fault = .conflicting (name ++ "_wrap_compute_output") ∨
        fault = .redefined (name ++ "_wrap_compute_output")) := by
  have mem : name ++ "_wrap_compute_output" ∈ names.flatMap functionNames := by
    refine List.mem_flatMap.mpr ⟨name ++ "_wrap", taken, ?_⟩
    rw [functionNamesWrap]
    exact List.mem_cons_self
  obtain ⟨fault, n, failed, why⟩ := wrapperTaken (wrappable.compute functions.compute) filled mem
  refine ⟨fault, n, ?_, why⟩
  rw [wrappersGetter, runBind, failed]

end Wrappers

end Build

theorem Engine.addFilled {platform : Platform} {m : Module} {backend : Backend} {names : List String}
    (filled : m.Filled backend names) : ∃ engine loaded, (empty platform).add m = .ok (0, engine) ∧
      engine.modules = [(0, loaded)] ∧ loaded.exports = names := by
  have free : (empty platform).refusal? m = none := by
    rw [emptyRefusal, filled.imports]
    rfl
  exact ⟨_, (empty platform).load m, by rw [add, free]; rfl, rfl, filled.exports⟩

namespace Circuit

variable {circuit circuit' : Circuit} {top : Nat} {order : List Nat}

/- No two definitions have one name. -/
def Distinct (circuit : Circuit) : Prop := (circuit.definitions.map (·.name)).Nodup

theorem addDistinct {definition : Definition} {id : Nat} (distinct : circuit.Distinct)
    (ok : circuit.add definition = .ok (id, circuit')) : circuit'.Distinct := by
  unfold add at ok
  split at ok
  · exact nomatch ok
  · rename_i absent
    cases ok
    rw [Distinct, List.map_append]
    refine List.nodup_append.mpr ⟨distinct, List.nodup_singleton _, ?_⟩
    rintro _ mem _ own rfl
    obtain ⟨other, known, same⟩ := List.mem_map.mp mem
    have apart := List.findIdx?_eq_none_iff.mp absent other known
    exact of_decide_eq_false apart (same.trans (List.mem_singleton.mp own))

theorem addAllDistinct {definitions : List Definition} (distinct : circuit.Distinct)
    (ok : circuit.addAll definitions = .ok circuit') : circuit'.Distinct := by
  induction definitions generalizing circuit with
  | nil =>
    cases ok
    exact distinct
  | cons definition rest ih =>
    rw [addAll, List.foldlM_cons] at ok
    obtain ⟨between, added, ok⟩ := Result.okBind ok
    obtain ⟨⟨id, _⟩, ran, rfl⟩ := Result.okMap added
    exact ih (addDistinct distinct ran) ok

/- No definition that is needed has the name that the wrappers are named after. -/
def Unwrapped (circuit : Circuit) (top : Nat) : Prop :=
  ∀ id, circuit.Needs top id → (circuit.definition id).name ≠ (circuit.definition top).name ++ "_wrap"

def sources (circuit : Circuit) (order : List Nat) (top : Nat) : List String :=
  (order.filter (· ≠ top) ++ [top]).map (circuit.definition · |>.name)

def declared (circuit : Circuit) (order : List Nat) (top : Nat) : List String :=
  (circuit.sources order top).flatMap functionNames ++ functionNames ((circuit.definition top).name ++ "_wrap")

theorem needsKnown {id : Nat} (needs : circuit.Needs top id) : id = top ∨ top < circuit.size ∧ id < circuit.size := by
  induction needs with
  | refl => exact .inl rfl
  | @tail outer id _ step ih =>
    have known := instantiatesKnown step
    obtain ⟨name, -, found⟩ := step
    obtain ⟨inside, -⟩ := List.findIdx?_eq_some_iff_getElem.mp (lookupFind.mp found)
    rcases ih with rfl | ⟨first, -⟩
    · exact .inr ⟨known, inside⟩
    · exact .inr ⟨first, inside⟩

theorem nameInj (distinct : circuit.Distinct) {id other : Nat} (needs : circuit.Needs top id)
    (needs' : circuit.Needs top other) (same : (circuit.definition id).name = (circuit.definition other).name) :
    id = other := by
  have within : ∀ {id}, id < circuit.size → circuit.definitions[id]? = some (circuit.definition id) := fun inside => by
    rw [definition, List.getD_eq_getElem?_getD, List.getElem?_eq_getElem inside, Option.getD_some]
  rcases needsKnown needs with rfl | ⟨outer, inside⟩
  · rcases needsKnown needs' with rfl | ⟨outer, inside⟩
    · rfl
    · exact Result.indexInj distinct (within outer) (within inside) same
  · rcases needsKnown needs' with rfl | ⟨-, inside'⟩
    · exact Result.indexInj distinct (within inside) (within outer) same
    · exact Result.indexInj distinct (within inside) (within inside') same

section Order

variable (distinct : circuit.Distinct) (searched : circuit.reachable top = .ok order)
include searched

theorem compiledMem {id : Nat} : id ∈ order.filter (· ≠ top) ++ [top] ↔ circuit.Needs top id := by
  rw [← reachableMem searched, List.mem_append, List.mem_filter, List.mem_singleton, decide_eq_true_iff]
  by_cases own : id = top
  · simp [own, reachableMem searched, Relation.ReflTransGen.refl]
  · simp [own]

include distinct

theorem sourcesNodup : (circuit.sources order top).Nodup := by
  have ordered : order.Nodup := (visitVisited searched (.nil [])).ordered.nodup.1
  have once : (order.filter (· ≠ top) ++ [top]).Nodup := by
    refine List.nodup_append.mpr ⟨ordered.filter _, List.nodup_singleton top, ?_⟩
    rintro _ mem _ own rfl
    exact of_decide_eq_true (List.mem_filter.mp mem).2 (List.mem_singleton.mp own)
  exact once.map_on fun id mem other mem' same =>
    nameInj distinct ((compiledMem searched).mp mem) ((compiledMem searched).mp mem') same

theorem declaredNodup : (circuit.declared order top).Nodup ↔ circuit.Unwrapped top := by
  have all : circuit.declared order top =
      (circuit.sources order top ++ [(circuit.definition top).name ++ "_wrap"]).flatMap functionNames := by
    simp [declared]
  rw [all, functionNamesNodup]
  constructor
  · intro apart id needs same
    have mem : (circuit.definition id).name ∈ circuit.sources order top :=
      List.mem_map.mpr ⟨id, (compiledMem searched).mpr needs, rfl⟩
    exact (List.nodup_append.mp apart).2.2 _ mem _ (List.mem_singleton_self _) same
  · intro unwrapped
    refine List.nodup_append.mpr ⟨sourcesNodup distinct searched, List.nodup_singleton _, ?_⟩
    rintro _ mem _ own rfl
    obtain ⟨id, compiled, same⟩ := List.mem_map.mp mem
    exact unwrapped id ((compiledMem searched).mp compiled) (same.trans (List.mem_singleton.mp own))

end Order

end Circuit

theorem Design.Flat.outputPorts {design : Design} {graph : Graph} (flat : design.Flat graph) :
    graph.outputs.map (·.1) = design.interface.outputs := by
  have each : List.Forall₂ (fun (output : Port × Source) (entry : Port × Nat) => output.1 = entry.1) graph.outputs
      design.interface.outputs.zipIdx := (flat.outputs.imp fun _ _ both => both.1).flip
  have same : List.Forall₂ (· = ·) (graph.outputs.map (·.1)) (design.interface.outputs.zipIdx.map (·.1)) :=
    List.forall₂_map_left_iff.mpr (List.forall₂_map_right_iff.mpr each)
  rw [List.forall₂_eq_eq_eq] at same
  rw [same, List.zipIdx_map_fst]

theorem Circuit.flattenPorts {circuit : Circuit} (named : circuit.Named) {library : Library} {id : Nat} {graph : Graph}
    (ok : circuit.flatten library id = .ok graph) : graph.name = (circuit.definition id).name ∧
      ∀ ports, ports = graph.inputs ∨ ports = graph.outputs.map (·.1) →
        (ports.map (·.name)).Nodup ∧ ∀ port ∈ ports, port.width ≠ 0 := by
  obtain ⟨design, of, flat⟩ := flattenOf ok
  obtain ⟨narrow, narrow'⟩ := flat.portsNarrow of
  have distinct := named.ports id
  rw [List.map_append] at distinct
  obtain ⟨inputs, outputs, -⟩ := List.nodup_append.mp distinct
  refine ⟨flat.name.trans of.name, ?_⟩
  rintro ports (rfl | rfl)
  · refine ⟨?_, fun port mem => (narrow port mem).1.ne'⟩
    rw [flat.inputs, of.interface]
    exact inputs
  · refine ⟨?_, fun port mem => ?_⟩
    · rw [flat.outputPorts, of.interface]
      exact outputs
    · obtain ⟨output, member, rfl⟩ := List.mem_map.mp mem
      exact (narrow' output member).1.ne'

namespace Simulator
open Build

variable {circuit : Circuit} {library : Library} {settings : Settings} {top : Nat} {order : List Nat} {m : Module}
  {names : List String}

theorem recordMade (rules : Rules) {ports : List Port}
    (fit : (ports.map (·.name)).Nodup ∧ ∀ port ∈ ports, port.width ≠ 0) : ∃ made, record rules ports = .ok made := by
  obtain ⟨distinct, sized⟩ := fit
  obtain ⟨layout, laidOut⟩ := (@Layout.ofMembersIff rules (ports.map fun port => (port.name, port.width))).mpr (by
    refine ⟨by rwa [List.map_map], fun entry mem => ?_⟩
    obtain ⟨port, known, rfl⟩ := List.mem_map.mp mem
    exact sized port known)
  exact ⟨Record.ofLayout layout, congrArg (Except.map Record.ofLayout) laidOut⟩

section Filling

variable {backend : Backend} (accepts : backend.Accepts library) (named : circuit.Named)
include accepts named

theorem othersFilled {ids : List Nat} (filled : m.Filled backend names)
    (flat : ∀ id ∈ ids, ∃ graph, circuit.flatten library id = .ok graph)
    (fresh : (names ++ (ids.map (circuit.definition · |>.name)).flatMap functionNames).Nodup) :
    ∃ n, (buildOthers circuit library ids).Runs m ⟨⟩ n ∧
      n.Filled backend (names ++ (ids.map (circuit.definition · |>.name)).flatMap functionNames) := by
  induction ids generalizing m names with
  | nil =>
    rw [List.map_nil, List.flatMap_nil, List.append_nil]
    exact ⟨m, rfl, filled⟩
  | cons id rest ih =>
    obtain ⟨graph, made⟩ := flat id List.mem_cons_self
    have name := (Circuit.flattenPorts named made).1
    rw [List.map_cons, List.flatMap_cons, ← List.append_assoc, ← name] at fresh ⊢
    obtain ⟨functions, between, added, filled'⟩ := graphFilled filled (accepts.takes (.compute made))
      (accepts.takes (.update made)) (List.nodup_append.mp fresh).1
    obtain ⟨n, ran, last⟩ := ih filled' (fun other mem => flat other (List.mem_cons_of_mem id mem)) fresh
    have lifted : (Build.lift (circuit.flatten library id)).Runs m graph m := Prod.ext made rfl
    have first : Build.Runs (do
        let graph ← Build.lift (circuit.flatten library id)
        discard (Build.graph graph)) m ⟨⟩ between := (runAfter lifted).trans ((runAfter added).trans rfl)
    exact ⟨n, (runAfter first).trans ran, last⟩

theorem planWrappers (distinct : circuit.Distinct) (searched : circuit.reachable top = .ok order)
    (untapped : settings.taps = false)
    (flat : ∀ id, circuit.Needs top id → ∃ graph, circuit.flatten library id = .ok graph)
    (filled : m.Filled backend []) :
    ∃ (functions : GraphFunctions) (inputs outputs : Layout) (finish : Symbols → Plan) (n : Module),
      Wrappable backend inputs outputs ∧ n.Filled backend ((circuit.sources order top).flatMap functionNames) ∧
        (plan circuit library settings top order).run m = (do
          let symbols ← wrappers (circuit.definition top).name functions inputs outputs none
          return finish symbols : Build Plan).run n := by
  have fresh := functionNamesNodup.mpr (Circuit.sourcesNodup distinct searched)
  rw [Circuit.sources, List.map_append, List.flatMap_append] at fresh ⊢
  obtain ⟨m₁, others, filled⟩ := othersFilled accepts named filled
    (fun id mem => flat id ((Circuit.compiledMem searched).mp (List.mem_append_left _ mem)))
    (List.nodup_append.mp fresh).1
  rw [List.nil_append] at filled
  obtain ⟨graph, made⟩ := flat top .refl
  obtain ⟨same, ports⟩ := Circuit.flattenPorts named made
  have own : ([top].map (circuit.definition · |>.name)).flatMap functionNames =
      [graph.computeSymbol, graph.updateSymbol] := by
    rw [Graph.computeSymbol, Graph.updateSymbol, same]
    rfl
  rw [own] at fresh ⊢
  obtain ⟨functions, n, built, filled⟩ := graphFilled filled (accepts.takes (.compute made))
    (accepts.takes (.update made)) fresh
  obtain ⟨inputs, packed⟩ := recordMade settings.layout (ports _ (.inl rfl))
  obtain ⟨outputs, packed'⟩ := recordMade settings.layout (ports _ (.inr rfl))
  refine ⟨functions, inputs.layout, outputs.layout, fun symbols => ⟨graph, inputs, outputs, none, symbols⟩, n,
    recordsWrappable accepts.handles made packed packed', filled, ?_⟩
  have flattened : (Build.lift (circuit.flatten library top)).Runs m₁ graph m₁ := Prod.ext made rfl
  have first : (Build.lift (record settings.layout graph.inputs)).Runs n inputs n := Prod.ext packed rfl
  have second : (Build.lift (record settings.layout (graph.outputs.map (·.1)))).Runs n outputs n := Prod.ext packed' rfl
  have off : (buildTaps settings graph).Runs n (none, none) n := by
    rw [buildTaps, untapped]
    rfl
  rw [← same]
  exact (runAfter others).trans ((runAfter flattened).trans ((runAfter built).trans ((runAfter first).trans
    ((runAfter second).trans (runAfter off)))))

end Filling

variable {platform : Platform}

theorem ofCircuitRun (checked : circuit.validate = .ok ()) (searched : circuit.reachable top = .ok order)
    {result : Except Fault Plan} {n : Module} (ran : (plan circuit library settings top order).run
      ((Engine.empty platform).create (circuit.definition top).name) = (result, n)) :
    ofCircuit platform circuit library settings top = do
      let made ← result
      let (handle, engine) ← (Engine.empty platform).add n
      return assembled (circuit.definition top).name made n handle engine := by
  unfold ofCircuit
  rw [checked, searched]
  simp only [bind, Except.bind, ran]
  rfl

theorem createFilled (platform : Platform) (name : String) :
    ((Engine.empty platform).create name).Filled platform.backend [] := by
  exact ⟨rfl, rfl, rfl, by simp [Engine.create], rfl, rfl⟩

section Untapped

variable (accepts : platform.backend.Accepts library) (distinct : circuit.Distinct)
  (checked : circuit.validate = .ok ()) (searched : circuit.reachable top = .ok order)
  (untapped : settings.taps = false)
  (flat : ∀ id, circuit.Needs top id → ∃ graph, circuit.flatten library id = .ok graph)
include accepts distinct checked searched untapped flat

theorem builtUnwrapped (unwrapped : circuit.Unwrapped top) : ∃ sim loaded,
    ofCircuit platform circuit library settings top = .ok sim ∧ sim.engine.modules = [(0, loaded)] ∧
      loaded.exports = circuit.declared order top := by
  obtain ⟨functions, inputs, outputs, finish, n, wrappable, filled, ran⟩ := planWrappers accepts
    (Circuit.validateNamed checked) distinct searched untapped flat (createFilled platform (circuit.definition top).name)
  obtain ⟨symbols, m, wrapped, filled⟩ := wrappersFilled wrappable functions filled
    ((Circuit.declaredNodup distinct searched).mpr unwrapped)
  obtain ⟨engine, loaded, added, only, exported⟩ := @Engine.addFilled platform _ _ _ filled
  rw [runAfter wrapped] at ran
  refine ⟨assembled (circuit.definition top).name (finish symbols) m 0 engine, loaded, ?_, only, exported⟩
  rw [ofCircuitRun checked searched ran, added]
  rfl

theorem refusedWrapped (wrapped : ¬circuit.Unwrapped top) : ∃ fault,
    ofCircuit platform circuit library settings top = .error (.codegen fault) ∧
      (fault = .conflicting ((circuit.definition top).name ++ "_wrap_compute_output") ∨
        fault = .redefined ((circuit.definition top).name ++ "_wrap_compute_output")) := by
  obtain ⟨id, needs, same⟩ : ∃ id, circuit.Needs top id ∧
      (circuit.definition id).name = (circuit.definition top).name ++ "_wrap" := by
    simpa [Circuit.Unwrapped] using wrapped
  obtain ⟨functions, inputs, outputs, finish, n, wrappable, filled, ran⟩ := planWrappers accepts
    (Circuit.validateNamed checked) distinct searched untapped flat (createFilled platform (circuit.definition top).name)
  obtain ⟨fault, m, failed, why⟩ := wrappersTaken wrappable functions filled
    (List.mem_map.mpr ⟨id, (Circuit.compiledMem searched).mpr needs, same⟩)
  rw [runBind, failed] at ran
  refine ⟨fault, ?_, why⟩
  rw [ofCircuitRun checked searched ran]
  rfl

end Untapped

theorem setTaps {taps : Bool} (set : settings.taps = taps) : { settings with taps := taps } = settings := by
  subst set
  rfl

theorem outcomeUntapped (accepts : platform.backend.Accepts library)
    (recordable : settings.taps = true → ∀ graph, circuit.flatten library top = .ok graph → graph.Recordable) :
    Result.outcome (ofCircuit platform circuit library settings top) =
      Result.outcome (ofCircuit platform circuit library { settings with taps := false } top) := by
  cases set : settings.taps with
  | false => rw [setTaps set]
  | true =>
    have same : Result.outcome (ofCircuit platform circuit library { settings with taps := true } top) =
        Result.outcome (ofCircuit platform circuit library { settings with taps := false } top) :=
      ofCircuitSame (fun reachable => planTapped accepts.handles (recordable set) reachable nofun ⟨rfl, rfl⟩)
        fun alike => alike.imports
    rw [setTaps set] at same
    exact same

theorem ofCircuitIff (accepts : platform.backend.Accepts library) (distinct : circuit.Distinct) (checked : circuit.validate = .ok ()) :
    (∃ sim, ofCircuit platform circuit library settings top = .ok sim) ↔
      (∀ id, circuit.Needs top id → ∃ graph, circuit.flatten library id = .ok graph) ∧ circuit.Unwrapped top ∧
        (settings.taps = true → ∀ graph, circuit.flatten library top = .ok graph → graph.Recordable) := by
  have outcome : ∀ {settings settings' : Settings},
      Result.outcome (ofCircuit platform circuit library settings top) =
        Result.outcome (ofCircuit platform circuit library settings' top) →
      (∃ sim, ofCircuit platform circuit library settings top = .ok sim) →
        ∃ sim, ofCircuit platform circuit library settings' top = .ok sim := by
    rintro settings settings' same ⟨sim, built⟩
    rw [built] at same
    cases built' : ofCircuit platform circuit library settings' top with
    | error fault =>
      rw [built'] at same
      exact nomatch same
    | ok sim' => exact ⟨sim', rfl⟩
  constructor
  · rintro ⟨sim, built⟩
    obtain ⟨-, order, made, m, handle, engine, searched, ran, -, -⟩ := ofCircuitPlan built
    have flat : ∀ id, circuit.Needs top id → ∃ graph, circuit.flatten library id = .ok graph :=
      fun id needs => (planRuns ran).2.children id ((Circuit.reachableMem searched).mpr needs)
    have recordable : settings.taps = true → ∀ graph, circuit.flatten library top = .ok graph → graph.Recordable := by
      intro set graph flat
      rw [← setTaps set] at built
      exact builtRecordable built flat
    refine ⟨flat, ?_, recordable⟩
    by_contra wrapped
    obtain ⟨sim', built'⟩ := outcome (outcomeUntapped accepts recordable) ⟨sim, built⟩
    obtain ⟨fault, failed, -⟩ := @refusedWrapped circuit library { settings with taps := false } top order
      platform accepts distinct checked searched rfl flat wrapped
    exact nomatch built'.symm.trans failed
  · rintro ⟨flat, unwrapped, recordable⟩
    obtain ⟨graph, made⟩ := flat top .refl
    obtain ⟨_, found, -⟩ := Result.okBind made
    obtain ⟨order, searched, -⟩ := Result.okMap found
    obtain ⟨sim, -, built, -⟩ := @builtUnwrapped circuit library { settings with taps := false } top order
      platform accepts distinct checked searched rfl flat unwrapped
    exact outcome (outcomeUntapped accepts recordable).symm ⟨sim, built⟩

/-- When all definitions that are needed flatten, and the backend accepts what is written for their library, a build
without taps succeeds exactly when none of them is named after the wrappers, which is when no two of its functions have one name. What is built exports all of them. A build
that fails does so at the first wrapper. -/
theorem buildsIff (platform : Platform) (circuit : Circuit) (library : Library) (settings : Settings) (top : Nat)
    (accepts : platform.backend.Accepts library) (distinct : circuit.Distinct)
    (checked : circuit.validate = .ok ()) (untapped : settings.taps = false)
    (flat : ∀ id, circuit.Needs top id → ∃ graph, circuit.flatten library id = .ok graph) :
    ∃ order, circuit.reachable top = .ok order ∧
      ((∃ sim, ofCircuit platform circuit library settings top = .ok sim) ↔ circuit.Unwrapped top) ∧
      ((circuit.declared order top).Nodup ↔ circuit.Unwrapped top) ∧
      (∀ sim, ofCircuit platform circuit library settings top = .ok sim →
        ∃ loaded, sim.engine.modules = [(0, loaded)] ∧ loaded.exports = circuit.declared order top) ∧
      (¬circuit.Unwrapped top → ∃ fault, ofCircuit platform circuit library settings top = .error (.codegen fault) ∧
        (fault = .conflicting ((circuit.definition top).name ++ "_wrap_compute_output") ∨
          fault = .redefined ((circuit.definition top).name ++ "_wrap_compute_output"))) := by
  obtain ⟨graph, made⟩ := flat top .refl
  obtain ⟨_, found, -⟩ := Result.okBind made
  obtain ⟨order, searched, -⟩ := Result.okMap found
  have only : ∀ sim, ofCircuit platform circuit library settings top = .ok sim → circuit.Unwrapped top := by
    intro sim built
    by_contra wrapped
    obtain ⟨fault, failed, -⟩ := refusedWrapped accepts distinct checked searched untapped flat wrapped
    exact nomatch built.symm.trans failed
  refine ⟨order, searched, ⟨fun ⟨sim, built⟩ => only sim built, fun unwrapped => ?_⟩,
    Circuit.declaredNodup distinct searched, fun sim built => ?_,
    fun wrapped => refusedWrapped accepts distinct checked searched untapped flat wrapped⟩
  · obtain ⟨sim, -, built, -⟩ := builtUnwrapped accepts distinct checked searched untapped flat unwrapped
    exact ⟨sim, built⟩
  · obtain ⟨sim', loaded, built', holds⟩ := builtUnwrapped accepts distinct checked searched untapped flat (only sim built)
    obtain rfl := Except.ok.inj (built.symm.trans built')
    exact ⟨loaded, holds⟩

theorem countersExport : ∃ sim loaded, ofCircuit default counters .builtin { taps := false } 1 = .ok sim ∧
    sim.engine.modules = [(0, loaded)] ∧ loaded.exports = [
      "counter_compute_output", "counter_update_state", "counters_compute_output", "counters_update_state",
      "counters_wrap_compute_output", "counters_wrap_update_state"] := by
  have distinct : counters.Distinct := @Circuit.addAllDistinct .empty _ counters.definitions List.nodup_nil rfl
  have found : counters.reachable 1 = .ok [0, 1] := by decide +kernel
  have evaluated : ∀ id ∈ [0, 1], (counters.flatten .builtin id).toOption.any (fun _ => true) = true := by
    decide +kernel
  have flat : ∀ id, counters.Needs 1 id → ∃ graph, counters.flatten .builtin id = .ok graph := by
    intro id needs
    obtain ⟨graph, made, -⟩ := Result.okAny (evaluated id ((Circuit.reachableMem found).mpr needs))
    exact ⟨graph, made⟩
  have apart : ∀ id ∈ [0, 1], (counters.definition id).name ≠ (counters.definition 1).name ++ "_wrap" := by
    decide +kernel
  obtain ⟨order, searched, builds, -, exported, -⟩ := buildsIff default counters .builtin { taps := false } 1
    (fun _ _ _ _ _ => rfl) distinct (by decide +kernel) rfl flat
  obtain rfl := Except.ok.inj (searched.symm.trans found)
  obtain ⟨sim, built⟩ := builds.mpr fun id needs => apart id ((Circuit.reachableMem found).mpr needs)
  obtain ⟨loaded, only, names⟩ := exported sim built
  exact ⟨sim, loaded, built, only, names.trans (by decide +kernel)⟩

def wrapping : Circuit := ⟨[
  { name := "t_wrap"
    inputs := [⟨"a", 4⟩]
    outputs := [⟨"b", 4⟩]
    instances := [⟨"n", .primitive "not" [("width", 4)]⟩]
    nets := [⟨.own "a", [.of "n" "in"]⟩, ⟨.of "n" "out", [.own "b"]⟩] },
  { name := "t"
    inputs := [⟨"d", 4⟩]
    outputs := [⟨"q", 4⟩]
    instances := [⟨"u", .definition "t_wrap"⟩]
    nets := [⟨.own "d", [.of "u" "a"]⟩, ⟨.of "u" "b", [.own "q"]⟩] }], none⟩

theorem wrappingRefused : Circuit.empty.addAll wrapping.definitions = .ok wrapping ∧ wrapping.validate = .ok () ∧
    wrapping.reachable 1 = .ok [0, 1] ∧ (∀ id ∈ [0, 1], ∃ graph, wrapping.flatten .builtin id = .ok graph) ∧
      Result.outcome (ofCircuit default wrapping .builtin { taps := false } 1) =
        .error (.codegen (.conflicting "t_wrap_compute_output")) := by
  refine ⟨rfl, by decide +kernel, by decide +kernel, fun id mem => ?_, by decide +kernel⟩
  have evaluated : ∀ id ∈ [0, 1], (wrapping.flatten .builtin id).toOption.any (fun _ => true) = true := by
    decide +kernel
  obtain ⟨graph, made, -⟩ := Result.okAny (evaluated id mem)
  exact ⟨graph, made⟩

end Simulator

end CircuitSim
