import CircuitSim.Proofs.Resolution

/-! What a module under construction lists, after any calls whatever their answers. A definition is listed before it is
known whether the function can take it, so the listing keeps step with the defined functions just as long as no
definition is refused for that. Main statement: `listingTracks`. -/
namespace CircuitSim

inductive Edit
  | declare (name : String) (params : List Param) (exported : Bool)
  | define (id : Nat) (body : Emit Unit)

/-- The number of the function that was declared or defined, or the fault, and the module that is left. -/
def Edit.serve : Edit → Module → Except Fault Nat × Module
  | declare name params exported, m => (Build.declare name params exported).run m
  | define id body, m => (do Build.define id body; return id : Build Nat).run m

/-- How a call is refused. Some refusals have already changed the module: a definition that comes too late, or that the
backend does not accept, is listed, a body that fails is left unfinished, and a declaration with another signature has
made the function definable if it was to be exported. -/
inductive Refused (m : Module) : Edit → Fault → Module → Prop
  | undeclared {id : Nat} {body : Emit Unit} (missing : m.functions[id]? = none) :
      Refused m (.define id body) (.codegen (.undeclared id)) m
  | unwritten {id : Nat} {body : Emit Unit} {function : Function} {fault : Fault}
      (here : m.functions[id]? = some function) (failed : body.code = .error fault) :
      Refused m (.define id body) fault { m with unfinished := true }
  | imported {id : Nat} {body : Emit Unit} {function : Function} {code : Code}
      (here : m.functions[id]? = some function) (written : body.code = .ok code) (closed : function.definable = false) :
      Refused m (.define id body) (.codegen (.imported function.name))
        { m with listing := m.listing ++ [function.name], unfinished := false }
  | redefined {id : Nat} {body : Emit Unit} {function : Function} {code : Code}
      (here : m.functions[id]? = some function) (written : body.code = .ok code) (opened : function.definable = true)
      (full : function.body.isSome) :
      Refused m (.define id body) (.codegen (.redefined function.name))
        { m with listing := m.listing ++ [function.name], unfinished := false }
  | rejected {id : Nat} {body : Emit Unit} {function : Function} {code : Code} {text : String}
      (here : m.functions[id]? = some function) (written : body.code = .ok code) (opened : function.definable = true)
      (empty : function.body = none)
      (refusal : m.backend.refusal? m.unfinished function.signature code = some text) :
      Refused m (.define id body) (.codegen (.other text))
        { m with listing := m.listing ++ [function.name], unfinished := false }
  | conflicting {name : String} {params : List Param} {exported : Bool} {id : Nat} {old : Function}
      (first : m.functions.findIdx? (·.name = name) = some id) (here : m.functions[id]? = some old)
      (other : old.signature ≠ params.map Param.bits) :
      Refused m (.declare name params exported) (.codegen (.conflicting name))
        { m with functions := m.functions.set id { old with definable := old.definable || exported } }

inductive Accepted (m : Module) : Edit → Nat → Module → Prop
  | defined {id : Nat} {body : Emit Unit} {function : Function} {code : Code}
      (here : m.functions[id]? = some function) (written : body.code = .ok code) (opened : function.definable = true)
      (empty : function.body = none) (taken : m.backend.refusal? m.unfinished function.signature code = none) :
      Accepted m (.define id body) id { m with
        functions := m.functions.set id { function with body := some code }
        listing := m.listing ++ [function.name]
        unfinished := false }
  | merged {name : String} {params : List Param} {exported : Bool} {id : Nat} {old : Function}
      (first : m.functions.findIdx? (·.name = name) = some id) (here : m.functions[id]? = some old)
      (same : old.signature = params.map Param.bits) :
      Accepted m (.declare name params exported) id (({ m with
        functions := m.functions.set id { old with definable := old.definable || exported } } : Module).list
          name id exported)
  | made {name : String} {params : List Param} {exported : Bool}
      (fresh : m.functions.findIdx? (·.name = name) = none) :
      Accepted m (.declare name params exported) m.functions.length (({ m with
        functions := m.functions ++ [⟨name, params.map Param.bits, exported, none⟩] } : Module).list
          name m.functions.length exported)

structure Turn where
  before : Module
  edit : Edit
  answer : Except Fault Nat
  after : Module

namespace Turn

def defined? (turn : Turn) : Option Nat :=
  match turn.edit, turn.answer with
  | .define id _, .ok _ => some id
  | _, _ => none

def listed? (turn : Turn) : Option String :=
  match turn.edit with
  | .declare .. => none
  | .define id body =>
    match turn.before.functions[id]?, body.code with
    | some function, .ok _ => some function.name
    | _, _ => none

end Turn

namespace Module

def turn (m : Module) (edit : Edit) : Turn := ⟨m, edit, (edit.serve m).1, (edit.serve m).2⟩

def turns : Module → List Edit → List Turn
  | _, [] => []
  | m, edit :: rest => m.turn edit :: (m.turn edit).after.turns rest

def left : Module → List Edit → Module
  | m, [] => m
  | m, edit :: rest => (m.turn edit).after.left rest

def Bodied (m : Module) (id : Nat) : Prop := ∃ function, m.functions[id]? = some function ∧ function.body.isSome

def nameAt (m : Module) (id : Nat) : String := (m.functions.getD id default).name

end Module

def Function.given (function : Function) : String × List Nat × Option Code :=
  (function.name, function.signature, function.body)

namespace Module

variable {m m' : Module}

theorem listExtends {id : Nat} {function : Function} {name : String} (here : m.functions[id]? = some function)
    (named : function.name = name) (exported : Bool) : m.Extends (m.list name id exported) := by
  cases exported with
  | true => exact exportExtends here named
  | false =>
    exact ⟨fun _ function here => ⟨function, here, rfl, fun _ given => given⟩, fun _ mem => mem,
      fun consistent => ⟨consistent.distinct, consistent.exports⟩, rfl⟩

theorem bodiedIff {id : Nat} : m.Bodied id ↔
    ((m.functions.map Function.given)[id]?.bind fun given => given.2.2).isSome := by
  rw [List.getElem?_map]
  cases here : m.functions[id]? with
  | none => simp [Bodied, here]
  | some function => simp [Bodied, here, Function.given]

theorem bodiedSame (same : m'.functions.map Function.given = m.functions.map Function.given) {id : Nat} :
    m'.Bodied id ↔ m.Bodied id := by
  rw [bodiedIff, bodiedIff, same]

end Module

theorem yieldMore {α β : Type} {few more : α → Option β} {xs : List α}
    (keeps : ∀ x ∈ xs, ∀ y, few x = some y → more x = some y) : (xs.filterMap few).Sublist (xs.filterMap more) ∧
      (xs.filterMap more = xs.filterMap few ↔ ∀ x ∈ xs, few x = none → more x = none) := by
  induction xs with
  | nil => exact ⟨.slnil, iff_of_true rfl nofun⟩
  | cons x rest ih =>
    obtain ⟨own, others⟩ := List.forall_mem_cons.mp keeps
    obtain ⟨part, all⟩ := ih others
    rw [List.forall_mem_cons, ← all]
    cases first : few x with
    | some y =>
      rw [List.filterMap_cons_some first, List.filterMap_cons_some (own y first)]
      exact ⟨part.cons_cons y, by simp⟩
    | none =>
      cases extra : more x with
      | none =>
        rw [List.filterMap_cons_none first, List.filterMap_cons_none extra]
        exact ⟨part, by simp⟩
      | some y =>
        rw [List.filterMap_cons_none first, List.filterMap_cons_some extra]
        refine ⟨part.cons y, iff_of_false (fun same => ?_) fun both => nomatch both.1 rfl⟩
        have lengths := congrArg List.length same
        have shorter := part.length_le
        rw [List.length_cons] at lengths
        omega

section Step

variable {m m' : Module} {edit : Edit}

theorem serveDefine (m : Module) (id : Nat) (body : Emit Unit) : (Edit.define id body).serve m =
    match m.functions[id]?, body.code with
    | none, _ => (.error (.codegen (.undeclared id)), m)
    | some _, .error fault => (.error fault, { m with unfinished := true })
    | some function, .ok code =>
      let written : Module := { m with listing := m.listing ++ [function.name], unfinished := false }
      if function.definable then
        if function.body.isSome then (.error (.codegen (.redefined function.name)), written)
        else match m.backend.refusal? m.unfinished function.signature code with
          | some text => (.error (.codegen (.other text)), written)
          | none => (.ok id, { written with functions := m.functions.set id { function with body := some code } })
      else (.error (.codegen (.imported function.name)), written) := by
  rw [Edit.serve, Build.runBind]
  unfold Build.define
  rw [Build.runGet]
  cases here : m.functions[id]? with
  | none => rfl
  | some function =>
    simp only [Build.runSet]
    cases written : body.code with
    | error fault => rfl
    | ok code =>
      simp only [Build.runLift, Build.runSet]
      cases function.definable with
      | false => rfl
      | true =>
        cases function.body with
        | some _ => rfl
        | none => cases m.backend.refusal? m.unfinished function.signature code <;> rfl

theorem Refused.serve {fault : Fault} (refused : Refused m edit fault m') :
    edit.serve m = (.error fault, m') := by
  cases refused with
  | undeclared missing => rw [serveDefine, missing]
  | unwritten here failed => rw [serveDefine, here, failed]
  | imported here written closed => simp only [serveDefine, here, written, closed, Bool.false_eq_true, if_false]
  | redefined here written opened full => simp only [serveDefine, here, written, opened, full, if_true]
  | rejected here written opened empty refusal =>
    simp only [serveDefine, here, written, opened, empty, refusal, Option.isSome_none, Bool.false_eq_true, if_true,
      if_false]
  | @conflicting name params exported id old first here other =>
    rw [Edit.serve, Build.declareRun, first]
    simp only [Module.functionAt here]
    rw [if_pos other]

theorem Accepted.serve {id : Nat} (accepted : Accepted m edit id m') : edit.serve m = (.ok id, m') := by
  cases accepted with
  | defined here written opened empty taken =>
    simp only [serveDefine, here, written, opened, empty, taken, Option.isSome_none, Bool.false_eq_true, if_true,
      if_false]
  | @merged name params exported id old first here same =>
    rw [Edit.serve, Build.declareRun, first]
    simp only [Module.functionAt here]
    rw [if_neg (not_not.mpr same)]
  | made fresh => rw [Edit.serve, Build.declareRun, fresh]

theorem decided (m : Module) (edit : Edit) :
    (∃ fault m', Refused m edit fault m') ∨ ∃ id m', Accepted m edit id m' := by
  cases edit with
  | declare name params exported =>
    cases first : m.functions.findIdx? (·.name = name) with
    | none => exact .inr ⟨_, _, .made first⟩
    | some id =>
      obtain ⟨old, here, -⟩ := Module.findFirst first
      by_cases same : old.signature = params.map Param.bits
      · exact .inr ⟨_, _, .merged first here same⟩
      · exact .inl ⟨_, _, .conflicting first here same⟩
  | define id body =>
    cases here : m.functions[id]? with
    | none => exact .inl ⟨_, _, .undeclared here⟩
    | some function =>
      cases written : body.code with
      | error fault => exact .inl ⟨_, _, .unwritten here written⟩
      | ok code =>
        cases opened : function.definable with
        | false => exact .inl ⟨_, _, .imported here written opened⟩
        | true =>
          cases full : function.body with
          | some _ => exact .inl ⟨_, _, .redefined here written opened (by rw [full]; rfl)⟩
          | none =>
            cases refusal : m.backend.refusal? m.unfinished function.signature code with
            | some text => exact .inl ⟨_, _, .rejected here written opened full refusal⟩
            | none => exact .inr ⟨_, _, .defined here written opened full refusal⟩

theorem refusedIff {fault : Fault} : edit.serve m = (.error fault, m') ↔ Refused m edit fault m' := by
  constructor
  · intro ran
    rcases decided m edit with ⟨fault', left, refused⟩ | ⟨id, left, accepted⟩
    · cases ran.symm.trans refused.serve
      exact refused
    · cases ran.symm.trans accepted.serve
  · exact Refused.serve

theorem turnCases (m : Module) (edit : Edit) :
    (∃ fault m', Refused m edit fault m' ∧ m.turn edit = ⟨m, edit, .error fault, m'⟩) ∨
      ∃ id m', Accepted m edit id m' ∧ m.turn edit = ⟨m, edit, .ok id, m'⟩ := by
  rcases decided m edit with ⟨fault, m', refused⟩ | ⟨id, m', accepted⟩
  · exact .inl ⟨fault, m', refused, by rw [Module.turn, refused.serve]⟩
  · exact .inr ⟨id, m', accepted, by rw [Module.turn, accepted.serve]⟩

theorem Refused.spares {fault : Fault} (refused : Refused m edit fault m') : m'.imports = m.imports ∧
    m'.exports = m.exports ∧ m'.functions.map Function.given = m.functions.map Function.given := by
  cases refused with
  | undeclared | unwritten | imported | redefined | rejected => exact ⟨rfl, rfl, rfl⟩
  | conflicting _ here => exact ⟨rfl, rfl, Module.putSame here rfl⟩

theorem turnListed (m : Module) (edit : Edit) :
    (m.turn edit).after.listing = m.listing ++ (m.turn edit).listed?.toList := by
  rcases turnCases m edit with ⟨fault, m', refused, same⟩ | ⟨id, m', accepted, same⟩
  · rw [same, Turn.listed?]
    cases refused with
    | undeclared missing => simp [missing]
    | unwritten here failed => simp [here, failed]
    | imported here written | redefined here written | rejected here written => simp [here, written]
    | conflicting => simp
  · rw [same, Turn.listed?]
    cases accepted with
    | defined here written => simp [here, written]
    | @merged name params exported | @made name params exported => cases exported <;> simp [Module.list]

theorem turnExtends (m : Module) (edit : Edit) : m.Extends (m.turn edit).after := by
  rcases turnCases m edit with ⟨fault, m', refused, same⟩ | ⟨id, m', accepted, same⟩
  · rw [same]
    cases refused with
    | undeclared => exact .refl m
    | unwritten | imported | redefined | rejected =>
      exact ⟨fun _ function here => ⟨function, here, rfl, fun _ given => given⟩, fun _ mem => mem,
        fun consistent => ⟨consistent.distinct, consistent.exports⟩, rfl⟩
    | conflicting _ here => exact Module.putExtends here rfl rfl rfl rfl fun _ given => given
  · rw [same]
    cases accepted with
    | defined here _ _ empty =>
      refine Module.putExtends here rfl rfl rfl rfl ?_
      rw [empty]
      exact fun _ => nofun
    | @merged name params exported id old first here =>
      obtain ⟨inside, -⟩ := List.getElem?_eq_some_iff.mp here
      obtain ⟨_, here', -, named⟩ := Module.findFirst first
      cases here.symm.trans here'
      let new : Function := { old with definable := old.definable || exported }
      have put : m.Extends { m with functions := m.functions.set id new } :=
        Module.putExtends here rfl rfl rfl rfl fun _ given => given
      have found : (m.functions.set id new)[id]? = some new := List.getElem?_set_self inside
      have kept : new.name = name := named
      exact put.trans (Module.listExtends found kept exported)
    | @made name params exported fresh =>
      let new : Function := ⟨name, params.map Param.bits, exported, none⟩
      have unused : ∀ function ∈ m.functions, function.name ≠ new.name := fun function mem => by
        simpa using List.findIdx?_eq_none_iff.mp fresh function mem
      have last : (m.functions ++ [new])[m.functions.length]? = some new := List.getElem?_concat_length
      have named : new.name = name := rfl
      exact (Module.pushExtends unused).trans (Module.listExtends last named exported)

theorem refusedNothing {fault : Fault} (failed : (m.turn edit).answer = .error fault) :
    (m.turn edit).defined? = none := by
  rw [Turn.defined?, failed]
  cases edit with
  | declare | define => rfl

theorem turnBodied (m : Module) (edit : Edit) :
    (∀ id, (m.turn edit).after.Bodied id ↔ m.Bodied id ∨ (m.turn edit).defined? = some id) ∧
      ∀ id, (m.turn edit).defined? = some id → ¬m.Bodied id := by
  rcases turnCases m edit with ⟨fault, m', refused, same⟩ | ⟨id, m', accepted, same⟩
  · obtain ⟨-, -, given⟩ := refused.spares
    have nothing : (m.turn edit).defined? = none := refusedNothing (by rw [same])
    rw [nothing, same]
    exact ⟨fun id => by simpa using Module.bodiedSame given, nofun⟩
  · rw [same]
    cases accepted with
    | @defined _ body function code here _ _ empty _ =>
      obtain ⟨inside, -⟩ := List.getElem?_eq_some_iff.mp here
      refine ⟨fun other => ?_, fun other own bodied => ?_⟩
      · by_cases own : id = other
        · subst own
          exact iff_of_true ⟨_, List.getElem?_set_self inside, rfl⟩ (.inr rfl)
        · simp [Module.Bodied, Turn.defined?, own]
      · cases own
        obtain ⟨function', here', full⟩ := bodied
        cases here.symm.trans here'
        rw [empty] at full
        cases full
    | @merged name params exported id old first here =>
      refine ⟨fun id => (Module.bodiedSame ?_).trans (or_iff_left nofun).symm, nofun⟩
      rw [Module.listFunctions]
      exact Module.putSame here rfl
    | @made name params exported =>
      refine ⟨fun id => Iff.trans ?_ (or_iff_left nofun).symm, nofun⟩
      rw [Module.bodiedIff, Module.bodiedIff, Module.listFunctions, List.map_append, List.getElem?_append]
      split
      · rfl
      · rename_i outside
        rw [List.getElem?_eq_none (Nat.le_of_not_lt outside)]
        cases id - (m.functions.map Function.given).length with
        | zero | succ => simp [Function.given]

theorem definedListed {id : Nat} (defined : (m.turn edit).defined? = some id) :
    ∃ function, m.functions[id]? = some function ∧ (m.turn edit).listed? = some function.name := by
  rcases turnCases m edit with ⟨fault, m', refused, same⟩ | ⟨id', m', accepted, same⟩
  · rw [same] at defined
    cases refused <;> cases defined
  · rw [same] at defined ⊢
    cases accepted with
    | defined here written =>
      cases defined
      exact ⟨_, here, by simp [Turn.listed?, here, written]⟩
    | merged | made => cases defined

theorem listedDefined {id : Nat} (accepted : (m.turn edit).answer = .ok id)
    (open' : (m.turn edit).defined? = none) : (m.turn edit).listed? = none := by
  cases edit with
  | declare => rfl
  | define =>
    rw [Turn.defined?, accepted] at open'
    cases open'

end Step

section Run

variable {m : Module} {edits : List Edit}

theorem turnsMem {turn : Turn} (mem : turn ∈ m.turns edits) :
    ∃ (before : Module) (edit : Edit), turn = before.turn edit := by
  induction edits generalizing m with
  | nil => cases mem
  | cons edit rest ih =>
    rcases List.mem_cons.mp mem with first | later
    · exact ⟨m, edit, first⟩
    · exact ih later

theorem leftExtends (m : Module) (edits : List Edit) : m.Extends (m.left edits) := by
  induction edits generalizing m with
  | nil => exact .refl m
  | cons edit rest ih => exact (turnExtends m edit).trans (ih _)

theorem leftListed (m : Module) (edits : List Edit) :
    (m.left edits).listing = m.listing ++ (m.turns edits).filterMap Turn.listed? := by
  induction edits generalizing m with
  | nil => exact (List.append_nil _).symm
  | cons edit rest ih =>
    rw [Module.left, ih, turnListed, Module.turns, List.append_assoc, List.filterMap_cons]
    cases (m.turn edit).listed? with
    | none | some => rfl

theorem leftBodied (m : Module) (edits : List Edit) :
    (∀ id, (m.left edits).Bodied id ↔ m.Bodied id ∨ id ∈ (m.turns edits).filterMap Turn.defined?) ∧
      ((m.turns edits).filterMap Turn.defined?).Nodup ∧
      ∀ id ∈ (m.turns edits).filterMap Turn.defined?, ¬m.Bodied id := by
  induction edits generalizing m with
  | nil => exact ⟨fun id => by simp [Module.left, Module.turns], List.nodup_nil, nofun⟩
  | cons edit rest ih =>
    obtain ⟨bodied, empty⟩ := turnBodied m edit
    obtain ⟨later, distinct, apart⟩ := ih (m.turn edit).after
    rw [Module.left, Module.turns, List.filterMap_cons]
    cases defined : (m.turn edit).defined? with
    | none =>
      simp only [defined, reduceCtorEq, or_false] at bodied
      simp only [bodied] at later apart
      exact ⟨later, distinct, apart⟩
    | some id =>
      simp only [defined, Option.some.injEq] at bodied empty
      simp only [bodied, not_or] at later apart
      refine ⟨fun other => ?_, List.nodup_cons.mpr ⟨fun again => (apart id again).2 rfl, distinct⟩, ?_⟩
      · rw [later, List.mem_cons, eq_comm, or_assoc]
      · exact List.forall_mem_cons.mpr ⟨empty id rfl, fun other mem => (apart other mem).1⟩

theorem leftNamed : ∀ turn ∈ m.turns edits, ∀ id, turn.defined? = some id →
    turn.listed? = some ((m.left edits).nameAt id) := by
  induction edits generalizing m with
  | nil =>
    intro turn mem
    cases mem
  | cons edit rest ih =>
    refine List.forall_mem_cons.mpr ⟨fun id defined => ?_, ih⟩
    obtain ⟨function, here, listed⟩ := definedListed defined
    obtain ⟨function', here', name, -⟩ := (leftExtends m (edit :: rest)).functions id function here
    rw [listed, Module.nameAt, Module.functionAt here', name]

end Run

theorem unlistedIff (m : Module) (edit : Edit) :
    (m.turn edit).after.listing = m.listing ↔ (m.turn edit).listed? = none := by
  rw [turnListed, List.append_right_eq_self, Option.toList_eq_nil_iff]

/-- After any calls, the listing has the functions that code was written for, among them those that are defined, each
once and in order; these are all of it just as long as no refused call has listed anything. A refused call leaves what
was declared and defined as it was, and the imports and the exports. -/
theorem listingTracks (backend : Backend) (name : String) (edits : List Edit) :
    let m := Module.left { name, backend } edits
    let turns := Module.turns { name, backend } edits
    let defined := turns.filterMap Turn.defined?
    m.listing = turns.filterMap Turn.listed? ∧
    (∀ id, id ∈ defined ↔ m.Bodied id) ∧
    (defined.map m.nameAt).Nodup ∧
    (defined.map m.nameAt).Sublist m.listing ∧
    (m.listing = defined.map m.nameAt ↔
      ∀ turn ∈ turns, ∀ fault, turn.answer = .error fault → turn.after.listing = turn.before.listing) ∧
    (∀ turn ∈ turns, ∀ fault, turn.answer = .error fault →
      turn.after.imports = turn.before.imports ∧ turn.after.exports = turn.before.exports ∧
      turn.after.functions.map Function.given = turn.before.functions.map Function.given) ∧
    ∀ before edit fault after, edit.serve before = (.error fault, after) ↔ Refused before edit fault after := by
  intro m turns defined
  have listing : m.listing = turns.filterMap Turn.listed? := leftListed { name, backend } edits
  obtain ⟨bodied, distinct, -⟩ := leftBodied { name, backend } edits
  have empty : ∀ id, ¬Module.Bodied { name, backend } id := fun id ⟨_, here, _⟩ => nomatch here
  have bodies : ∀ id, id ∈ defined ↔ m.Bodied id := fun id => ((bodied id).trans (or_iff_right (empty id))).symm
  have names : defined.map m.nameAt = turns.filterMap fun turn => turn.defined?.map m.nameAt := List.map_filterMap
  have kept : ∀ turn ∈ turns, ∀ name, turn.defined?.map m.nameAt = some name → turn.listed? = some name := by
    intro turn mem name given
    obtain ⟨id, own, rfl⟩ := Option.map_eq_some_iff.mp given
    exact leftNamed turn mem id own
  obtain ⟨part, whole⟩ := yieldMore kept
  refine ⟨listing, bodies, ?_, by rw [names, listing]; exact part, ?_, fun turn mem fault failed => ?_,
    fun before edit fault after => refusedIff⟩
  · have consistent : m.Consistent := (leftExtends { name, backend } edits).consistent ⟨List.nodup_nil, nofun⟩
    refine distinct.map_on fun id mem other mem' same => ?_
    obtain ⟨function, here, -⟩ := (bodies id).mp mem
    obtain ⟨function', here', -⟩ := (bodies other).mp mem'
    rw [Module.nameAt, Module.nameAt, Module.functionAt here, Module.functionAt here'] at same
    exact Result.indexInj consistent.distinct here here' same
  · rw [names, listing, whole]
    refine forall₂_congr fun turn mem => ?_
    obtain ⟨before, edit, rfl⟩ := turnsMem mem
    constructor
    · intro nothing fault failed
      refine (unlistedIff before edit).mpr (nothing ?_)
      rw [refusedNothing failed]
      rfl
    · intro quiet nothing
      cases answer : (before.turn edit).answer with
      | error fault => exact (unlistedIff before edit).mp (quiet fault answer)
      | ok id => exact listedDefined answer (Option.map_eq_none_iff.mp nothing)
  · obtain ⟨before, edit, rfl⟩ := turnsMem mem
    exact (refusedIff.mp (Prod.ext failed rfl)).spares

def definedTwice : List Edit :=
  [.declare "f" [.ptr] true, .define 0 (discard (Emit.param 0)), .define 0 (discard (Emit.param 0))]

theorem redefinedListed :
    (Module.turns { name := "m", backend := default } definedTwice).map Turn.answer = [.ok 0, .ok 0, .error (.codegen (.redefined "f"))] ∧
    ((Module.turns { name := "m", backend := default } definedTwice).filterMap Turn.defined?).map
      (Module.left { name := "m", backend := default } definedTwice).nameAt = ["f"] ∧
    (Module.left { name := "m", backend := default } definedTwice).listing = ["f", "f"] := ⟨rfl, rfl, rfl⟩

end CircuitSim
