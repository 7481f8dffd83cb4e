import CircuitSim.Proofs.Emission
import CircuitSim.Proofs.Linking
import CircuitSim.Proofs.Pins
import CircuitSim.Sim.Simulator

/-! When two builds succeed or are refused for one reason. If the backend takes all bodies of graphs and wrappers, a step
of a build is refused for names and signatures that the module has already, so modules that agree on these cannot be
told apart by it, whatever code they hold. -/
namespace CircuitSim

/- Whether a computation succeeds, and the fault if not. -/
def Result.outcome {ε α : Type} (x : Except ε α) : Except ε Unit := x.map fun _ => ()

theorem Result.outcomeBind {ε α α' β β' : Type} {x : Except ε α} {x' : Except ε α'} {f : α → Except ε β}
    {f' : α' → Except ε β'} (first : outcome x = outcome x')
    (rest : ∀ a a', x = .ok a → x' = .ok a' → outcome (f a) = outcome (f' a')) :
    outcome (x >>= f) = outcome (x' >>= f') := by
  cases x with
  | error fault =>
    cases x' with
    | error fault' => exact first
    | ok a' => exact nomatch first
  | ok a =>
    cases x' with
    | error fault' => exact nomatch first
    | ok a' => exact rest a a' rfl rfl

/- A body that is written, and that the backend has nothing against if no other one was left unfinished. -/
def Backend.Takes (backend : Backend) (params : List Param) (body : Emit Unit) : Prop :=
  ∃ code, body.code = .ok code ∧ backend.refusal? false (params.map Param.bits) code = none

structure Module.Open (m : Module) (backend : Backend) : Prop where
  finished : m.unfinished = false
  backend : m.backend = backend

section Emitted

variable (library : Library)

inductive Wrapping : List Param → Emit Unit → Prop
  | compute {circuit : Circuit} {id : Nat} {graph : Graph} (flat : circuit.flatten library id = .ok graph)
      {rules : Rules} {inputs outputs : Record} (packed : Simulator.record rules graph.inputs = .ok inputs)
      (packed' : Simulator.record rules (graph.outputs.map (·.1)) = .ok outputs) (callee : Nat) :
      Wrapping (List.replicate 3 .ptr) (Wrapper.computeBody inputs.layout outputs.layout callee)
  | update {circuit : Circuit} {id : Nat} {graph : Graph} (flat : circuit.flatten library id = .ok graph)
      {rules : Rules} {inputs : Record} (packed : Simulator.record rules graph.inputs = .ok inputs) (callee : Nat) :
      Wrapping (List.replicate 2 .ptr) (Wrapper.updateBody inputs.layout callee)
  | capture {circuit : Circuit} {id : Nat} {graph : Graph} (flat : circuit.flatten library id = .ok graph)
      {rules : Rules} {inputs : Record} (packed : Simulator.record rules graph.inputs = .ok inputs) (callee : Nat) :
      Wrapping (List.replicate 3 .ptr) (Wrapper.captureBody inputs.layout callee)

inductive Emitted : List Param → Emit Unit → Prop
  | compute {circuit : Circuit} {id : Nat} {graph : Graph} (flat : circuit.flatten library id = .ok graph) :
      Emitted graph.computeParams graph.computeBody
  | update {circuit : Circuit} {id : Nat} {graph : Graph} (flat : circuit.flatten library id = .ok graph) :
      Emitted graph.updateParams graph.updateBody
  | capture {circuit : Circuit} {id : Nat} {graph : Graph} (flat : circuit.flatten library id = .ok graph)
      {rules : Rules} {taps : Taps} (laidOut : Taps.ofGraph rules graph = .ok taps) :
      Emitted graph.captureParams (graph.captureBody taps.region.layout)
  | wrapper {params : List Param} {body : Emit Unit} (wrapping : Wrapping library params body) : Emitted params body

end Emitted

namespace Backend

variable (backend : Backend) (library : Library)

/- Nothing that is emitted for the graphs of a library is refused. -/
def Accepts : Prop := ∀ params body code, Emitted library params body → body.code = .ok code →
  backend.refusal? false (params.map Param.bits) code = none

/- Whatever the code of a library is like, nothing is wrong with the rest: no wrapper is refused, and no capture of the
signals of a graph that are taken where they are computed. -/
structure Handles : Prop where
  wrapper : ∀ params body code, Wrapping library params body → body.code = .ok code →
    backend.refusal? false (params.map Param.bits) code = none
  capture : ∀ circuit : Circuit, ∀ id graph rules taps code, circuit.flatten library id = .ok graph →
    Taps.ofGraph rules graph = .ok taps → backend.Takes graph.computeParams graph.computeBody →
    (graph.captureBody taps.region.layout).code = .ok code →
    backend.refusal? false (graph.captureParams.map Param.bits) code = none

end Backend

theorem Circuit.flattenSupplied {circuit : Circuit} {library : Library} {id : Nat} {graph : Graph}
    (flat : circuit.flatten library id = .ok graph) : graph.Supplied := by
  obtain ⟨design, of, flattened⟩ := flattenOf flat
  exact flattened.supplied of

theorem Emit.Writes.given {callees : Nat → Prop} {body : Emit Unit} (writes : Writes callees body) :
    ∃ code, body.code = .ok code := writes.code.imp fun _ both => both.1

section Written

variable {library : Library} {params : List Param} {body : Emit Unit}

theorem Wrapping.code (wrapping : Wrapping library params body) : ∃ code, body.code = .ok code := by
  cases wrapping with
  | compute => exact (Wrapper.computeBodyWrites _ _ _).given
  | update => exact (Wrapper.updateBodyWrites _ _).given
  | capture => exact (Wrapper.captureBodyWrites _ _).given

theorem Emitted.code (emitted : Emitted library params body) : ∃ code, body.code = .ok code := by
  cases emitted with
  | compute flat => exact (@Graph.computeBodyWrites (fun _ => False) _ (Circuit.flattenSupplied flat)).given
  | update flat => exact (@Graph.updateBodyWrites (fun _ => False) _ (Circuit.flattenSupplied flat)).given
  | capture flat => exact (@Graph.captureBodyWrites (fun _ => False) _ (Circuit.flattenSupplied flat) _).given
  | wrapper wrapping => exact wrapping.code

variable {backend : Backend}

theorem Backend.Accepts.takes (accepts : backend.Accepts library) (emitted : Emitted library params body) :
    backend.Takes params body := by
  obtain ⟨code, written⟩ := emitted.code
  exact ⟨code, written, accepts params body code emitted written⟩

theorem Backend.Accepts.handles (accepts : backend.Accepts library) : backend.Handles library where
  wrapper params body code wrapping written := accepts params body code (.wrapper wrapping) written
  capture _ _ _ _ _ code flat laidOut _ written := accepts _ _ code (.capture flat laidOut) written

theorem Backend.Handles.takesCapture (handles : backend.Handles library) {circuit : Circuit} {id : Nat} {graph : Graph}
    (flat : circuit.flatten library id = .ok graph) {rules : Rules} {taps : Taps}
    (laidOut : Taps.ofGraph rules graph = .ok taps) (taken : backend.Takes graph.computeParams graph.computeBody) :
    backend.Takes graph.captureParams (graph.captureBody taps.region.layout) := by
  obtain ⟨code, written⟩ := (Emitted.capture flat laidOut).code
  exact ⟨code, written, handles.capture circuit id graph rules taps code flat laidOut taken written⟩

theorem Backend.Handles.takes (handles : backend.Handles library) (wrapping : Wrapping library params body) :
    backend.Takes params body := by
  obtain ⟨code, written⟩ := wrapping.code
  exact ⟨code, written, handles.wrapper params body code wrapping written⟩

end Written

namespace Module

def find? (m : Module) (name : String) : Option Function := m.functions.find? (·.name = name)

def shape? (m : Module) (name : String) : Option (List Nat × Bool) :=
  (m.find? name).map fun function => (function.signature, function.body.isSome)

structure Alike (backend : Backend) (hidden : String → Prop) (m m' : Module) : Prop where
  shapes : ∀ name, ¬hidden name → m.shape? name = m'.shape? name
  imports : m.imports = m'.imports
  left : m.Open backend
  right : m'.Open backend

def Declares (m : Module) (name : String) (id : Nat) (function : Function) : Prop :=
  m.functions.findIdx? (·.name = name) = some id ∧ m.functions[id]? = some function ∧ function.name = name ∧
    function.definable = true

theorem Alike.refl {backend : Backend} {m : Module} (ready : m.Open backend) (hidden : String → Prop) :
    m.Alike backend hidden m := ⟨fun _ _ => rfl, rfl, ready, ready⟩

theorem namesMissing {allowed : String → Prop} {m : Module} (named : m.Names allowed) {name : String}
    (other : ¬allowed name) : m.functions.findIdx? (·.name = name) = none :=
  List.findIdx?_eq_none_iff.mpr fun function mem => decide_eq_false fun same =>
    other (same ▸ named function.name (List.mem_map.mpr ⟨function, mem, rfl⟩))

theorem findMissing {functions : List Function} {name : String} :
    functions.findIdx? (·.name = name) = none ↔ functions.find? (·.name = name) = none := by
  rw [List.findIdx?_eq_none_iff, List.find?_eq_none]
  exact forall₂_congr fun _ _ => by simp

theorem findFirst {functions : List Function} {name : String} {id : Nat}
    (first : functions.findIdx? (·.name = name) = some id) : ∃ function, functions[id]? = some function ∧
      functions.find? (·.name = name) = some function ∧ function.name = name := by
  obtain ⟨inside, named, before⟩ := List.findIdx?_eq_some_iff_getElem.mp first
  refine ⟨functions[id], List.getElem?_eq_getElem inside, ?_, of_decide_eq_true named⟩
  exact List.find?_eq_some_iff_getElem.mpr ⟨named, id, inside, rfl, fun j earlier => by simpa using before j earlier⟩

theorem Declares.shape {m : Module} {name : String} {id : Nat} {function : Function}
    (declares : m.Declares name id function) : m.shape? name = some (function.signature, function.body.isSome) := by
  obtain ⟨first, here, -⟩ := declares
  obtain ⟨other, here', found, -⟩ := findFirst first
  rw [shape?, find?, found, Option.some.inj (here'.symm.trans here)]
  rfl

theorem findPush {functions : List Function} {new : Function}
    (fresh : functions.findIdx? (·.name = new.name) = none) (other : String) :
    (functions ++ [new]).find? (·.name = other) =
      if other = new.name then some new else functions.find? (·.name = other) := by
  rw [List.find?_append, List.find?_singleton]
  by_cases own : other = new.name
  · rw [if_pos own, own, findMissing.mp fresh]
    simp
  · have skipped : decide (new.name = other) = false := decide_eq_false fun same => own same.symm
    rw [if_neg own, skipped]
    simp

theorem findSet {functions : List Function} {name : String} {id : Nat}
    (first : functions.findIdx? (·.name = name) = some id) {new : Function} (named : new.name = name) (other : String) :
    (functions.set id new).find? (·.name = other) =
      if other = name then some new else functions.find? (·.name = other) := by
  induction functions generalizing id with
  | nil => exact nomatch first
  | cons function rest ih =>
    rw [List.findIdx?_cons] at first
    by_cases own : function.name = name
    · rw [if_pos (decide_eq_true own)] at first
      cases first
      rw [List.set_cons_zero, List.find?_cons, List.find?_cons, named, own]
      by_cases same : other = name
      · simp [same]
      · have skipped : decide (name = other) = false := decide_eq_false fun h => same h.symm
        rw [if_neg same, skipped]
    · have skipped : decide (function.name = name) = false := decide_eq_false own
      rw [if_neg (by rw [skipped]; decide)] at first
      obtain ⟨place, later, rfl⟩ := Option.map_eq_some_iff.mp first
      rw [List.set_cons_succ, List.find?_cons, List.find?_cons, ih later]
      by_cases here : function.name = other
      · have kept : other ≠ name := fun same => own (here.trans same)
        simp only [here, decide_true, if_neg kept]
      · simp only [here, decide_false]

theorem firstSet {functions : List Function} {name : String} {id : Nat}
    (first : functions.findIdx? (·.name = name) = some id) {new : Function} (named : new.name = name) :
    (functions.set id new).findIdx? (·.name = name) = some id := by
  obtain ⟨inside, -, before⟩ := List.findIdx?_eq_some_iff_getElem.mp first
  refine List.findIdx?_eq_some_iff_getElem.mpr ⟨by simpa using inside, by simpa using named, fun j earlier => ?_⟩
  rw [List.getElem_set_ne (Nat.ne_of_gt earlier)]
  exact before j earlier

theorem Alike.put {backend : Backend} {hidden : String → Prop} {m m' n n' : Module} (alike : m.Alike backend hidden m')
    {name : String} {shape : Option (List Nat × Bool)}
    (left : ∀ other, n.shape? other = if other = name then shape else m.shape? other)
    (right : ∀ other, n'.shape? other = if other = name then shape else m'.shape? other)
    (imports : n.imports = m.imports) (imports' : n'.imports = m'.imports) (ready : n.Open backend)
    (ready' : n'.Open backend) : n.Alike backend hidden n' := by
  refine ⟨fun other seen => ?_, imports.trans (alike.imports.trans imports'.symm), ready, ready'⟩
  rw [left, right, alike.shapes other seen]

theorem Alike.hide {backend : Backend} {hidden : String → Prop} {m m' n : Module} (alike : m.Alike backend hidden m')
    {name : String} (secret : hidden name) (shapes : ∀ other, other ≠ name → n.shape? other = m.shape? other)
    (imports : n.imports = m.imports) (ready : n.Open backend) : n.Alike backend hidden m' := by
  refine ⟨fun other seen => ?_, imports.trans alike.imports, ready, alike.right⟩
  exact (shapes other fun same => seen (same ▸ secret)).trans (alike.shapes other seen)

end Module

namespace Build
open CircuitSim.Module

variable {α β γ δ : Type} {m m' : Module}

inductive Agree (related : α → β → Module → Module → Prop) (b : Build α) (b' : Build β) (m m' : Module) : Prop
  | done {a : α} {a' : β} {n n' : Module} (ran : b.Runs m a n) (ran' : b'.Runs m' a' n') (holds : related a a' n n')
  | refused {fault : Fault} {n n' : Module} (failed : b.run m = (.error fault, n))
      (failed' : b'.run m' = (.error fault, n'))

theorem agreeBind {related : α → β → Module → Module → Prop} {related' : γ → δ → Module → Module → Prop} {b : Build α}
    {b' : Build β} {next : α → Build γ} {next' : β → Build δ} (first : Agree related b b' m m')
    (rest : ∀ a a' n n', b.Runs m a n → b'.Runs m' a' n' → related a a' n n' →
      Agree related' (next a) (next' a') n n') : Agree related' (b >>= next) (b' >>= next') m m' := by
  cases first with
  | done ran ran' holds =>
    cases rest _ _ _ _ ran ran' holds with
    | done last last' holds => exact .done ((runAfter ran).trans last) ((runAfter ran').trans last') holds
    | refused failed failed' => exact .refused ((runAfter ran).trans failed) ((runAfter ran').trans failed')
  | refused failed failed' => exact .refused (by rw [runBind, failed]) (by rw [runBind, failed'])

theorem agreePure {related : α → β → Module → Module → Prop} {a : α} {a' : β} (holds : related a a' m m') :
    Agree related (pure a) (pure a') m m' := .done rfl rfl holds

theorem agreeSame (b : Build α) (m : Module) : Agree (fun a a' n n' => a = a' ∧ n = n' ∧ b.Runs m a n) b b m m := by
  cases ran : b.run m with
  | mk result left =>
    cases result with
    | ok a => exact .done ran ran ⟨rfl, rfl, ran⟩
    | error fault => exact .refused ran ran

section Steps

variable {backend : Backend} {name : String} {params : List Param}

theorem defineRun {body : Emit Unit} {code : Code} (emitted : body.code = .ok code) {id : Nat} {function : Function}
    (here : m.functions[id]? = some function) (definable : function.definable = true)
    (taken : m.backend.refusal? m.unfinished function.signature code = none) : (define id body).run m =
    if function.body.isSome then (.error (.codegen (.redefined function.name)),
      { m with listing := m.listing ++ [function.name], unfinished := false })
    else (.ok (), { m with
      functions := m.functions.set id { function with body := some code }
      listing := m.listing ++ [function.name]
      unfinished := false }) := by
  unfold define
  rw [runGet]
  simp only [here, runSet, emitted, runLift, definable, taken]
  by_cases given : function.body.isSome
  · rw [if_pos given]
    simp only [given]
    rfl
  · rw [if_neg given]
    simp only [given]
    rfl

structure Introduced (name : String) (params : List Param) (m : Module) (id : Nat) (n : Module) : Prop where
  declares : ∃ function, n.Declares name id function
  shapes : ∀ other, n.shape? other = if other = name then
    some (params.map Param.bits, (m.find? name).any (·.body.isSome)) else m.shape? other
  imports : n.imports = m.imports
  ready : ∀ backend, m.Open backend → n.Open backend

theorem Introduced.signature {id : Nat} {n : Module} (new : Introduced name params m id n) {function : Function}
    (declares : n.Declares name id function) : function.signature = params.map Param.bits := by
  have shape := new.shapes name
  rw [if_pos rfl, declares.shape] at shape
  exact (Prod.mk.inj (Option.some.inj shape)).1

theorem Introduced.known {id : Nat} {n : Module} (new : Introduced name params m id n) :
    ∃ function, n.Declares name id function ∧ function.signature = params.map Param.bits :=
  new.declares.imp fun _ declares => ⟨declares, new.signature declares⟩

theorem declareFresh (fresh : m.functions.findIdx? (·.name = name) = none) :
    ∃ n, (declare name params true).Runs m m.functions.length n ∧ Introduced name params m m.functions.length n := by
  have ran := declareRun name params true m
  rw [fresh] at ran
  refine ⟨_, ran, ⟨_, ?_, List.getElem?_concat_length, rfl, rfl⟩, fun other => ?_, rfl, fun _ ready => ⟨ready.finished, ready.backend⟩⟩
  · simp [listFunctions, List.findIdx?_append, fresh]
  · rw [shape?, find?, listFunctions, findPush fresh]
    have missing : m.find? name = none := findMissing.mp fresh
    rw [missing]
    split <;> rfl

theorem declareKnown {id : Nat} {function : Function} (first : m.functions.findIdx? (·.name = name) = some id)
    (here : m.functions[id]? = some function) (named : function.name = name) :
    if function.signature ≠ params.map Param.bits then
      ∃ n, (declare name params true).run m = (.error (.codegen (.conflicting name)), n)
    else ∃ n, (declare name params true).Runs m id n ∧ Introduced name params m id n := by
  have ran := declareRun name params true m
  have old := functionAt here
  have found : m.find? name = some function := by
    obtain ⟨other, here', found, -⟩ := findFirst first
    rw [find?, found, Option.some.inj (here'.symm.trans here)]
  obtain ⟨inside, -⟩ := List.getElem?_eq_some_iff.mp here
  simp only [first, old, Bool.or_true] at ran
  split
  · rename_i other
    rw [if_pos other] at ran
    exact ⟨_, ran⟩
  · rename_i same
    rw [if_neg same] at ran
    have shown : ∀ other, (m.functions.set id { function with definable := true }).find? (·.name = other) =
        if other = name then some { function with definable := true } else m.functions.find? (·.name = other) :=
      findSet first named
    refine ⟨_, ran, ⟨{ function with definable := true }, ?_, List.getElem?_set_self inside, named, rfl⟩,
      fun other => ?_, rfl, fun _ ready => ⟨ready.finished, ready.backend⟩⟩
    · exact firstSet first named
    · rw [shape?, find?, listFunctions, shown, found]
      split
      · rw [Option.map_some, not_not.mp same]
        rfl
      · rfl

theorem declareAgree {hidden : String → Prop} (alike : m.Alike backend hidden m') (seen : ¬hidden name) :
    Agree (fun id id' n n' => n.Alike backend hidden n' ∧
        (∃ function, n.Declares name id function ∧ function.signature = params.map Param.bits) ∧
        ∃ function, n'.Declares name id' function ∧ function.signature = params.map Param.bits)
      (declare name params true) (declare name params true) m m' := by
  have same := alike.shapes name seen
  cases found : m.functions.findIdx? (·.name = name) with
  | none =>
    have missing : m.find? name = none := findMissing.mp found
    have missing' : m'.find? name = none := by
      rw [shape?, missing] at same
      exact Option.map_eq_none_iff.mp same.symm
    obtain ⟨n, ran, new⟩ := @declareFresh m name params found
    obtain ⟨n', ran', new'⟩ := @declareFresh m' name params (findMissing.mpr missing')
    refine .done ran ran' ⟨alike.put new.shapes ?_ new.imports new'.imports (new.ready _ alike.left)
      (new'.ready _ alike.right), new.known, new'.known⟩
    rw [missing, ← missing']
    exact new'.shapes
  | some id =>
    obtain ⟨function, here, known, named⟩ := findFirst found
    cases found' : m'.functions.findIdx? (·.name = name) with
    | none =>
      rw [shape?, shape?, find?, known, find?, findMissing.mp found'] at same
      exact nomatch same
    | some id' =>
      obtain ⟨function', here', known', named'⟩ := findFirst found'
      rw [shape?, shape?, find?, known, find?, known'] at same
      obtain ⟨signature, body⟩ := Prod.mk.inj (Option.some.inj same)
      have left := @declareKnown m name params id function found here named
      have right := @declareKnown m' name params id' function' found' here' named'
      rw [← signature] at right
      by_cases fits : function.signature = params.map Param.bits
      · rw [if_neg (not_not.mpr fits)] at left right
        obtain ⟨n, ran, new⟩ := left
        obtain ⟨n', ran', new'⟩ := right
        refine .done ran ran' ⟨alike.put new.shapes ?_ new.imports new'.imports (new.ready _ alike.left)
          (new'.ready _ alike.right), new.known, new'.known⟩
        have taken : (m.find? name).any (·.body.isSome) = (m'.find? name).any (·.body.isSome) := by
          rw [find?, known, find?, known']
          exact body
        rw [taken]
        exact new'.shapes
      · rw [if_pos fits] at left right
        obtain ⟨n, failed⟩ := left
        obtain ⟨n', failed'⟩ := right
        exact .refused failed failed'

theorem defineTakes {id : Nat} {function : Function} (declares : m.Declares name id function)
    (same : function.signature = params.map Param.bits) {body : Emit Unit} (takes : backend.Takes params body)
    (ready : m.Open backend) : ∃ code, (define id body).run m =
      if function.body.isSome then (.error (.codegen (.redefined name)),
        { m with listing := m.listing ++ [name], unfinished := false })
      else (.ok (), { m with
        functions := m.functions.set id { function with body := some code }
        listing := m.listing ++ [name]
        unfinished := false }) := by
  obtain ⟨-, here, rfl, definable⟩ := declares
  obtain ⟨code, written, taken⟩ := takes
  exact ⟨code, defineRun written here definable (by rw [ready.finished, ready.backend, same, taken])⟩

theorem defineOpen {id : Nat} {function : Function} (declares : m.Declares name id function)
    (same : function.signature = params.map Param.bits) (empty : function.body = none) {body : Emit Unit}
    (takes : backend.Takes params body) (ready : m.Open backend) :
    ∃ n, (define id body).Runs m () n ∧ n.imports = m.imports ∧ n.Open backend ∧
      ∀ other, n.shape? other = if other = name then some (function.signature, true) else m.shape? other := by
  obtain ⟨code, ran⟩ := defineTakes declares same takes ready
  rw [if_neg (by simp [empty])] at ran
  refine ⟨_, ran, rfl, ⟨rfl, ready.backend⟩, fun other => ?_⟩
  rw [shape?, find?]
  simp only
  rw [findSet declares.1 (by exact declares.2.2.1)]
  split <;> rfl

theorem defineTaken {id : Nat} {function : Function} (declares : m.Declares name id function)
    (same : function.signature = params.map Param.bits) (given : function.body.isSome = true) {body : Emit Unit}
    (takes : backend.Takes params body) (ready : m.Open backend) :
    ∃ n, (define id body).run m = (.error (.codegen (.redefined name)), n) := by
  obtain ⟨code, ran⟩ := defineTakes declares same takes ready
  rw [if_pos given] at ran
  exact ⟨_, ran⟩

theorem defineAgree {hidden : String → Prop} (alike : m.Alike backend hidden m') (seen : ¬hidden name) {id id' : Nat}
    (declares : ∃ function, m.Declares name id function ∧ function.signature = params.map Param.bits)
    (declares' : ∃ function, m'.Declares name id' function ∧ function.signature = params.map Param.bits)
    {body body' : Emit Unit} (takes : backend.Takes params body) (takes' : backend.Takes params body') :
    Agree (fun _ _ n n' => n.Alike backend hidden n') (define id body) (define id' body') m m' := by
  obtain ⟨function, known, signature⟩ := declares
  obtain ⟨function', known', signature'⟩ := declares'
  have same := alike.shapes name seen
  rw [known.shape, known'.shape] at same
  have body := (Prod.mk.inj (Option.some.inj same)).2
  cases given : function.body with
  | none =>
    have given' : function'.body = none := by
      rw [given] at body
      exact Option.not_isSome_iff_eq_none.mp (by rw [← body]; decide)
    obtain ⟨n, ran, imports, ready, left⟩ := defineOpen known signature given takes alike.left
    obtain ⟨n', ran', imports', ready', right⟩ := defineOpen known' signature' given' takes' alike.right
    rw [signature', ← signature] at right
    exact .done ran ran' (alike.put left right imports imports' ready ready')
  | some code =>
    obtain ⟨n, failed⟩ := defineTaken known signature (by rw [given]; rfl) takes alike.left
    obtain ⟨n', failed'⟩ := defineTaken known' signature' (by rw [← body, given]; rfl) takes' alike.right
    exact .refused failed failed'

theorem introduceFresh (fresh : m.functions.findIdx? (·.name = name) = none) {body : Emit Unit}
    (takes : backend.Takes params body) (ready : m.Open backend) :
    ∃ between n, (declare name params true).Runs m m.functions.length between ∧
      (define m.functions.length body).Runs between () n ∧ n.imports = m.imports ∧ n.Open backend ∧
        ∀ other, other ≠ name → n.shape? other = m.shape? other := by
  obtain ⟨between, declared, new⟩ := @declareFresh m name params fresh
  obtain ⟨function, known⟩ := new.declares
  have open' : function.body = none := by
    have own := new.shapes name
    rw [if_pos rfl, known.shape, find?, findMissing.mp fresh] at own
    have unset : function.body.isSome = false := (Prod.mk.inj (Option.some.inj own)).2
    exact Option.isSome_eq_false_iff.mp unset |> Option.isNone_iff_eq_none.mp
  obtain ⟨n, defined, imports, ready', shapes⟩ :=
    defineOpen known (new.signature known) open' takes (new.ready backend ready)
  refine ⟨between, n, declared, defined, imports.trans new.imports, ready', fun other apart => ?_⟩
  rw [shapes, if_neg apart, new.shapes, if_neg apart]

end Steps

variable {backend : Backend}

theorem graphOpen {graph : Graph} {functions : GraphFunctions} (ran : (Build.graph graph).Runs m functions m')
    (ready : m.Open backend) : m'.Open backend :=
  ⟨graphFinished ran, (graphRuns ran).1.backend.trans ready.backend⟩

theorem declareSigned {name : String} {params : List Param} {exported : Bool} {id : Nat}
    (ran : (declare name params exported).Runs m id m') : m'.unfinished = m.unfinished ∧
    (∃ function, m'.functions[id]? = some function ∧ function.signature = params.map Param.bits) ∧
      ∀ (k : Nat) (function : Function), m.functions[k]? = some function →
        ∃ function' : Function, m'.functions[k]? = some function' ∧ function'.signature = function.signature := by
  have lists (n : Module) (id : Nat) : (n.list name id exported).unfinished = n.unfinished := by
    cases exported with
    | true | false => rfl
  have step := (declareRun name params exported m).symm.trans ran
  cases found : m.functions.findIdx? (·.name = name) with
  | none =>
    rw [found] at step
    cases step
    refine ⟨lists _ _, ?_, fun k function here => ⟨function, ?_, rfl⟩⟩
    · rw [listFunctions]
      exact ⟨_, List.getElem?_concat_length, rfl⟩
    · rw [listFunctions, List.getElem?_append_left (List.getElem?_eq_some_iff.mp here).1]
      exact here
  | some place =>
    obtain ⟨old, here, -⟩ := findFirst found
    simp only [found, functionAt here] at step
    obtain ⟨inside, -⟩ := List.getElem?_eq_some_iff.mp here
    split at step
    · cases step
    · rename_i same
      cases step
      refine ⟨lists _ _, ?_, fun k function known => ?_⟩
      · rw [listFunctions]
        exact ⟨_, List.getElem?_set_self inside, not_not.mp same⟩
      · rw [listFunctions, List.getElem?_set]
        split
        · rename_i own
          subst own
          cases here.symm.trans known
          exact ⟨_, rfl, rfl⟩
        · exact ⟨function, known, rfl⟩

theorem graphTaken {graph : Graph} {functions : GraphFunctions} (ran : (Build.graph graph).Runs m functions m')
    (ready : m.Open backend) : backend.Takes graph.computeParams graph.computeBody := by
  obtain ⟨compute, m₁, declared, ran⟩ := runsBind ran
  obtain ⟨update, m₂, declared', ran⟩ := runsBind ran
  obtain ⟨_, m₃, defined, -⟩ := runsBind ran
  obtain ⟨open₁, ⟨function, here, signed⟩, -⟩ := declareSigned declared
  obtain ⟨open₂, -, kept⟩ := declareSigned declared'
  obtain ⟨function', here', signed'⟩ := kept compute function here
  have finished : m₂.unfinished = false := open₂.trans (open₁.trans ready.finished)
  have backend' : m₂.backend = backend :=
    (declareRuns declared').1.backend.trans ((declareRuns declared).1.backend.trans ready.backend)
  rcases defineCases m₂ compute graph.computeBody with ⟨_, _, _, failed⟩ | ⟨_, code, here'', -, written, taken, -⟩
  · cases failed.symm.trans defined
  · cases here'.symm.trans here''
    rw [finished, backend', signed', signed] at taken
    exact ⟨code, written, taken⟩

theorem wrapperAgree {hidden : String → Prop} (alike : m.Alike backend hidden m') {name : String} (seen : ¬hidden name)
    (params : Nat) {body body' : Emit Unit} (takes : backend.Takes (List.replicate params .ptr) body)
    (takes' : backend.Takes (List.replicate params .ptr) body') :
    Agree (fun _ _ n n' => n.Alike backend hidden n') (wrapper name params body) (wrapper name params body') m m' :=
  agreeBind (declareAgree alike seen) fun _ _ _ _ _ _ ⟨alike, declares, declares'⟩ =>
    defineAgree alike seen declares declares' takes takes'

def getter (name : String) (inputs : Layout) : Option Nat → Build (Option String)
  | none => return none
  | some id => do
    wrapper (name ++ "_wrap_get_values") 3 (Wrapper.captureBody inputs id)
    return some (name ++ "_wrap_get_values")

theorem wrappersGetter (name : String) (functions : GraphFunctions) (inputs outputs : Layout) (capture : Option Nat) :
    wrappers name functions inputs outputs capture = do
      wrapper (name ++ "_wrap_compute_output") 3 (Wrapper.computeBody inputs outputs functions.compute)
      wrapper (name ++ "_wrap_update_state") 2 (Wrapper.updateBody inputs functions.update)
      let last ← getter name inputs capture
      return ⟨name ++ "_wrap_compute_output", name ++ "_wrap_update_state", last⟩ := by
  cases capture with
  | none => rfl
  | some id => simp only [wrappers, getter, bind_assoc, pure_bind]

theorem wrappersSymbols {name : String} {functions : GraphFunctions} {inputs outputs : Layout} {capture : Option Nat}
    {symbols : Symbols} (ran : (wrappers name functions inputs outputs capture).Runs m symbols m') :
    symbols.compute = name ++ "_wrap_compute_output" ∧ symbols.update = name ++ "_wrap_update_state" := by
  rw [wrappersGetter] at ran
  obtain ⟨_, _, _, ran⟩ := runsBind ran
  obtain ⟨_, _, _, ran⟩ := runsBind ran
  obtain ⟨_, _, _, ran⟩ := runsBind ran
  obtain ⟨rfl, -⟩ := runsPure ran
  exact ⟨rfl, rfl⟩

structure Wrappable (backend : Backend) (inputs outputs : Layout) : Prop where
  compute : ∀ callee, backend.Takes (List.replicate 3 .ptr) (Wrapper.computeBody inputs outputs callee)
  update : ∀ callee, backend.Takes (List.replicate 2 .ptr) (Wrapper.updateBody inputs callee)
  capture : ∀ callee, backend.Takes (List.replicate 3 .ptr) (Wrapper.captureBody inputs callee)

theorem recordsWrappable {library : Library} (handles : backend.Handles library) {circuit : Circuit} {id : Nat}
    {graph : Graph} (flat : circuit.flatten library id = .ok graph)
    {rules : Rules} {inputs outputs : Record} (packed : Simulator.record rules graph.inputs = .ok inputs)
    (packed' : Simulator.record rules (graph.outputs.map (·.1)) = .ok outputs) :
    Wrappable backend inputs.layout outputs.layout :=
  ⟨fun callee => handles.takes (.compute flat packed packed' callee),
    fun callee => handles.takes (.update flat packed callee), fun callee => handles.takes (.capture flat packed callee)⟩

theorem wrappersAgree {hidden : String → Prop} (alike : m.Alike backend hidden m') {name : String}
    (compute : ¬hidden (name ++ "_wrap_compute_output")) (update : ¬hidden (name ++ "_wrap_update_state"))
    {functions functions' : GraphFunctions} {inputs inputs' outputs outputs' : Layout}
    (wrappable : Wrappable backend inputs outputs) (wrappable' : Wrappable backend inputs' outputs')
    {capture capture' : Option Nat}
    (last : ∀ n n', n.Alike backend hidden n' →
      (∀ allowed, allowed (name ++ "_wrap_compute_output") → allowed (name ++ "_wrap_update_state") → m.Names allowed →
        n.Names allowed) →
      Agree (fun _ _ n n' => n.Alike backend hidden n') (getter name inputs capture) (getter name inputs' capture') n n') :
    Agree (fun _ _ n n' => n.Alike backend hidden n') (wrappers name functions inputs outputs capture)
      (wrappers name functions' inputs' outputs' capture') m m' := by
  rw [wrappersGetter, wrappersGetter]
  refine agreeBind (wrapperAgree alike compute 3 (wrappable.compute _) (wrappable'.compute _))
    fun _ _ _ _ ran _ alike => ?_
  refine agreeBind (wrapperAgree alike update 2 (wrappable.update _) (wrappable'.update _))
    fun _ _ _ _ ran' _ alike => ?_
  refine agreeBind (last _ _ alike fun allowed own own' named => ?_) fun _ _ _ _ _ _ alike => agreePure alike
  exact wrapperNames ran' own' (wrapperNames ran own named)

end Build

theorem Engine.emptyRefusal (platform : Platform) (m : Module) : (empty platform).refusal? m =
    (m.imports.find? fun name => ((empty platform).find? name).isNone).map .unresolvedSymbol := by
  unfold refusal?
  cases m.imports.find? fun name => ((empty platform).find? name).isNone with
  | some name => rfl
  | none =>
    rw [Option.map_none, Option.map_eq_none_iff, List.find?_eq_none]
    rintro ⟨name, id⟩ - taken
    exact Bool.false_ne_true taken

theorem Engine.addSame {platform : Platform} {m m' : Module} (imports : m.imports = m'.imports) :
    Result.outcome ((empty platform).add m) = Result.outcome ((empty platform).add m') := by
  rw [add, add, emptyRefusal, emptyRefusal, imports]
  cases m'.imports.find? fun name => ((empty platform).find? name).isNone with
  | none | some => rfl

namespace Simulator
open Build

section Planning

variable {circuit : Circuit} {library : Library} {top : Nat} {m m' : Module}

def buildOthers (circuit : Circuit) (library : Library) (ids : List Nat) : Build Unit :=
  ids.forM fun id => do
    let graph ← Build.lift (circuit.flatten library id)
    discard (Build.graph graph)

def finishPlan (settings : Settings) (graph : Graph) (functions : GraphFunctions) : Build Plan := do
  let inputs ← Build.lift (record settings.layout graph.inputs)
  let outputs ← Build.lift (record settings.layout (graph.outputs.map (·.1)))
  let (taps, capture) ← buildTaps settings graph
  let symbols ← Build.wrappers graph.name functions inputs.layout outputs.layout capture
  return ⟨graph, inputs, outputs, taps, symbols⟩

theorem planParts (settings : Settings) (reachable : List Nat) : plan circuit library settings top reachable = (do
    buildOthers circuit library (reachable.filter (· ≠ top))
    let graph ← Build.lift (circuit.flatten library top)
    let functions ← Build.graph graph
    finishPlan settings graph functions) := rfl

theorem othersRuns (related : Module → Module → Prop) (refl : ∀ m, related m m)
    (trans : ∀ {m m' m''}, related m m' → related m' m'' → related m m'')
    (each : ∀ {graph functions m m'}, (Build.graph graph).Runs m functions m' → related m m') {ids : List Nat} {r : Unit}
    (ran : (buildOthers circuit library ids).Runs m r m') : related m m' := by
  refine (runsForM refl trans ran fun {id m m' r} ran => ?_).1
  obtain ⟨graph, -, ran⟩ := runsLift ran
  obtain ⟨functions, built⟩ := runsDiscard ran
  exact each built

theorem planAgreeFrom {backend : Backend} {related : Plan → Plan → Module → Module → Prop} {settings settings' : Settings}
    (ready : m.Open backend) (reachable : List Nat) (rest : ∀ graph functions m₁ m₂ r,
      (buildOthers circuit library (reachable.filter (· ≠ top))).Runs m r m₁ → circuit.flatten library top = .ok graph →
      (Build.graph graph).Runs m₁ functions m₂ → m₂.Open backend →
      backend.Takes graph.computeParams graph.computeBody →
      Agree related (finishPlan settings graph functions) (finishPlan settings' graph functions) m₂ m₂) :
    Agree related (plan circuit library settings top reachable) (plan circuit library settings' top reachable) m m := by
  rw [planParts, planParts]
  refine agreeBind (agreeSame _ m) fun _ _ m₁ _ others _ ⟨_, same, _⟩ => ?_
  subst same
  refine agreeBind (agreeSame _ m₁) fun graph _ m₂ _ found _ ⟨same, same', _⟩ => ?_
  subst same same'
  obtain ⟨flat, rfl⟩ := Prod.mk.inj found
  refine agreeBind (agreeSame _ m₁) fun functions _ m₃ _ built _ ⟨same, same', _⟩ => ?_
  subst same same'
  have ready₁ : m₁.Open backend := othersRuns (fun m m' => m.Open backend → m'.Open backend) (fun _ => id)
    (fun first second ready => second (first ready)) graphOpen others ready
  exact rest graph functions m₁ m₃ _ others flat built (graphOpen built ready₁) (graphTaken built ready₁)

end Planning

end Simulator

theorem Simulator.ofCircuitSame {platform : Platform} {circuit : Circuit} {library : Library}
    {settings settings' : Settings} {top : Nat} {related : Plan → Plan → Module → Module → Prop}
    (plans : ∀ reachable, Build.Agree related (plan circuit library settings top reachable)
      (plan circuit library settings' top reachable) ((Engine.empty platform).create (circuit.definition top).name)
      ((Engine.empty platform).create (circuit.definition top).name))
    (imports : ∀ {made made' n n'}, related made made' n n' → n.imports = n'.imports) :
    Result.outcome (ofCircuit platform circuit library settings top) =
      Result.outcome (ofCircuit platform circuit library settings' top) := by
  unfold ofCircuit
  refine Result.outcomeBind rfl fun _ _ _ _ => Result.outcomeBind rfl fun reachable reachable' searched searched' => ?_
  obtain rfl := Except.ok.inj (searched.symm.trans searched')
  simp only
  cases plans reachable with
  | refused failed failed' =>
    rw [failed, failed']
    rfl
  | done ran ran' holds =>
    unfold Build.Runs at ran ran'
    rw [ran, ran']
    refine Result.outcomeBind rfl fun _ _ _ _ => ?_
    exact Result.outcomeBind (Engine.addSame (imports holds)) fun _ _ _ _ => rfl

end CircuitSim
