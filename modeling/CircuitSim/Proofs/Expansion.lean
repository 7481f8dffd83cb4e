import CircuitSim.Flat.Wiring
import CircuitSim.Proofs.Primitive
import CircuitSim.Proofs.Wiring

/-! What a design is made of: at every place stands the expansion of one definition of the circuit, the one that
the instance names of its path lead to. -/
namespace CircuitSim

inductive Circuit.Within (circuit : Circuit) (root : Nat) : List String → Nat → Prop
  | root : Within circuit root [] root
  | inside {path : List String} {id child : Nat} {inst : Instance} {name : String}
      (outer : Within circuit root path id) (mem : inst ∈ (circuit.definition id).instances)
      (part : inst.part = .definition name) (found : circuit.lookup name = .ok child) :
      Within circuit root (path ++ [inst.name]) child

structure Scoped (circuit : Circuit) (id : Nat) (wires : List Wire) (body : Hierarchy) : Prop where
  ports : ∀ port ∈ (circuit.definition id).inputs ++ (circuit.definition id).outputs, 0 < port.width ∧ port.width ≤ 128
  joins : Hierarchy.Joins (circuit.definition id) body.interfaces (circuit.definition id).nets [] wires

def Hierarchy.Expanded (circuit : Circuit) (library : Library) (id : Nat) (wires : List Wire) (body : Hierarchy) :
    Prop :=
  ∃ depth path, Hierarchy.expand circuit library depth path id = .ok (wires, body)

inductive Entry.Expands (circuit : Circuit) (library : Library) (inst : Instance) : Entry → Prop
  | primitive {kind place : String} {args : Args} {primitive : Primitive}
      (part : inst.part = .primitive kind args) (built : library.build kind args place = .ok primitive) :
      Expands circuit library inst (.primitive inst.name primitive)
  | scope {name : String} {child : Nat} {wires : List Wire} {inner : Hierarchy}
      (part : inst.part = .definition name) (found : circuit.lookup name = .ok child)
      (inside : Hierarchy.Expanded circuit library child wires inner) :
      Expands circuit library inst (.scope inst.name child (circuit.definition child).interface wires inner)

theorem Entry.Expands.name {circuit : Circuit} {library : Library} {inst : Instance} {entry : Entry}
    (expands : entry.Expands circuit library inst) : entry.name = inst.name := by
  cases expands with
  | primitive | scope => rfl

namespace Hierarchy

variable {circuit : Circuit} {library : Library}

theorem interfacesAt (body : Hierarchy) (i : Nat) :
    body.interfaces[i]? = (body.get? i).map fun entry => (entry.name, entry.interface) := by
  induction body generalizing i with
  | empty => rfl
  | primitive name p rest ih =>
    cases i with
    | zero => rfl
    | succ i => exact ih i
  | scope name definition interface wires inner rest _ ih =>
    cases i with
    | zero => rfl
    | succ i => exact ih i

inductive ExpandsFirst (circuit : Circuit) (library : Library)
    (expanded : List String → Nat → Except Fault (List Wire × Hierarchy)) (path : List String) (inst : Instance)
    (rest : List Instance) : Hierarchy → Prop
  | primitive {kind : String} {args : Args} {made : Primitive} {tail : Hierarchy}
      (part : inst.part = .primitive kind args)
      (built : library.build kind args (".".intercalate (path ++ [inst.name])) = .ok made)
      (behind : expandInstances circuit library expanded path rest = .ok tail) :
      ExpandsFirst circuit library expanded path inst rest (.primitive inst.name made tail)
  | scope {name : String} {child : Nat} {wires : List Wire} {inner tail : Hierarchy}
      (part : inst.part = .definition name) (found : circuit.lookup name = .ok child)
      (stepped : expanded (path ++ [inst.name]) child = .ok (wires, inner))
      (behind : expandInstances circuit library expanded path rest = .ok tail) :
      ExpandsFirst circuit library expanded path inst rest
        (.scope inst.name child (circuit.definition child).interface wires inner tail)

theorem expandInstancesFirst {expanded : List String → Nat → Except Fault (List Wire × Hierarchy)} {path : List String}
    {inst : Instance} {rest : List Instance} {body : Hierarchy}
    (ok : expandInstances circuit library expanded path (inst :: rest) = .ok body) :
    ExpandsFirst circuit library expanded path inst rest body := by
  unfold expandInstances at ok
  split at ok
  · rename_i kind args part
    obtain ⟨made, built, ok⟩ := Result.okBind ok
    obtain ⟨tail, behind, done⟩ := Result.okBind ok
    cases done
    exact .primitive part built behind
  · rename_i name part
    obtain ⟨child, found, ok⟩ := Result.okBind ok
    obtain ⟨⟨wires, inner⟩, stepped, ok⟩ := Result.okBind ok
    obtain ⟨tail, behind, done⟩ := Result.okBind ok
    cases done
    exact .scope part found stepped behind

theorem expandInstancesAt {depth : Nat} {path : List String} {instances : List Instance} {body : Hierarchy}
    (ok : expandInstances circuit library (expand circuit library depth) path instances = .ok body) (i : Nat) :
    Option.Rel (fun inst entry => entry.Expands circuit library inst) instances[i]? (body.get? i) := by
  induction instances generalizing body i with
  | nil =>
    cases ok
    cases i with
    | zero | succ => exact .none
  | cons inst rest ih =>
    cases expandInstancesFirst ok with
    | primitive part built behind =>
      cases i with
      | zero => exact .some (.primitive part built)
      | succ i => exact ih behind i
    | scope part found stepped behind =>
      cases i with
      | zero => exact .some (.scope part found ⟨_, _, stepped⟩)
      | succ i => exact ih behind i

theorem expandWithin {root : Nat} {holds : List String → Nat → Hierarchy → Prop}
    (empty : ∀ path id, holds path id .empty)
    (primitive : ∀ {path id inst kind args made tail}, circuit.Within root path id →
      inst ∈ (circuit.definition id).instances → inst.part = .primitive kind args →
        library.build kind args (".".intercalate (path ++ [inst.name])) = .ok made →
          holds path id tail → holds path id (.primitive inst.name made tail))
    (scope : ∀ {path id inst name child wires inner tail}, circuit.Within root path id →
      inst ∈ (circuit.definition id).instances → inst.part = .definition name → circuit.lookup name = .ok child →
        holds (path ++ [inst.name]) child inner → holds path id tail →
          holds path id (.scope inst.name child (circuit.definition child).interface wires inner tail))
    {depth : Nat} {path : List String} {id : Nat} {wires : List Wire} {body : Hierarchy}
    (ok : expand circuit library depth path id = .ok (wires, body)) (within : circuit.Within root path id) :
    holds path id body := by
  induction depth generalizing path id wires body with
  | zero => exact nomatch ok
  | succ depth below =>
    have all : ∀ {instances : List Instance}, (∀ inst ∈ instances, inst ∈ (circuit.definition id).instances) →
        ∀ {body : Hierarchy}, expandInstances circuit library (expand circuit library depth) path instances = .ok body →
          holds path id body := by
      intro instances known body ok
      induction instances generalizing body with
      | nil =>
        cases ok
        exact empty path id
      | cons inst rest ih =>
        obtain ⟨own, others⟩ := List.forall_mem_cons.mp known
        cases expandInstancesFirst ok with
        | primitive part built behind => exact primitive within own part built (ih others behind)
        | scope part found stepped behind =>
          exact scope within own part found (below stepped (within.inside own part found)) (ih others behind)
    obtain ⟨_, -, ok⟩ := Result.okBind ok
    obtain ⟨inner, instances, ok⟩ := Result.okBind ok
    obtain ⟨joined, -, done⟩ := Result.okBind ok
    cases done
    exact all (fun _ mem => mem) instances

end Hierarchy

namespace Hierarchy.Expanded

variable {circuit : Circuit} {library : Library} {id : Nat} {wires : List Wire} {body : Hierarchy}
  (expanded : Expanded circuit library id wires body)
include expanded

theorem closed : Scoped circuit id wires body := by
  obtain ⟨depth, path, ok⟩ := expanded
  cases depth with
  | zero => exact nomatch ok
  | succ depth =>
    obtain ⟨_, checked, ok⟩ := Result.okBind ok
    obtain ⟨inner, -, ok⟩ := Result.okBind ok
    obtain ⟨joined, connected, done⟩ := Result.okBind ok
    cases done
    refine ⟨fun port mem => ?_, connectAllJoins connected⟩
    exact checkWidth_eq_ok_iff.mp (Result.okForM checked port mem)

theorem entries (i : Nat) :
    Option.Rel (fun inst entry => entry.Expands circuit library inst) (circuit.definition id).instances[i]?
      (body.get? i) := by
  obtain ⟨depth, path, ok⟩ := expanded
  cases depth with
  | zero => exact nomatch ok
  | succ depth =>
    obtain ⟨_, -, ok⟩ := Result.okBind ok
    obtain ⟨inner, instances, ok⟩ := Result.okBind ok
    obtain ⟨joined, -, done⟩ := Result.okBind ok
    cases done
    exact expandInstancesAt instances i

theorem entryAt {i : Nat} {entry : Entry} (here : body.get? i = some entry) :
    ∃ inst, (circuit.definition id).instances[i]? = some inst ∧ entry.Expands circuit library inst := by
  have both := expanded.entries i
  rw [here] at both
  cases known : (circuit.definition id).instances[i]? with
  | none =>
    rw [known] at both
    exact nomatch both
  | some inst =>
    rw [known] at both
    cases both with
    | some expands => exact ⟨inst, rfl, expands⟩

theorem instanceAt {i : Nat} {inst : Instance} (known : (circuit.definition id).instances[i]? = some inst) :
    ∃ entry, body.get? i = some entry ∧ entry.Expands circuit library inst := by
  have both := expanded.entries i
  rw [known] at both
  cases here : body.get? i with
  | none =>
    rw [here] at both
    exact nomatch both
  | some entry =>
    rw [here] at both
    cases both with
    | some expands => exact ⟨entry, rfl, expands⟩

end Hierarchy.Expanded

structure Design.Of (design : Design) (circuit : Circuit) (library : Library) (id : Nat) : Prop where
  root : design.definition = id
  name : design.name = (circuit.definition id).name
  interface : design.interface = (circuit.definition id).interface
  expanded : Hierarchy.Expanded circuit library id design.wires design.body

theorem Design.ofCircuitOf {circuit : Circuit} {library : Library} {id : Nat} {design : Design}
    (ok : Design.ofCircuit circuit library id = .ok design) : design.Of circuit library id := by
  obtain ⟨⟨wires, body⟩, expanded, done⟩ := Result.okBind ok
  cases done
  exact ⟨rfl, rfl, rfl, _, _, expanded⟩

namespace Design

variable {design : Design} {place : Place} {wires : List Wire} {body : Hierarchy} {i : Nat} {entry : Entry}

theorem entryIn (found : design.scope? place = some (wires, body)) : design.item? (i :: place) = body.get? i := by
  rw [item?, found, Option.bind_some]

theorem itemScope (here : design.item? (i :: place) = some entry) :
    ∃ wires body, design.scope? place = some (wires, body) ∧ body.get? i = some entry := by
  cases found : design.scope? place with
  | none => simp [item?, found] at here
  | some scope => exact ⟨scope.1, scope.2, rfl, (entryIn found).symm.trans here⟩

theorem pathIn (here : design.item? (i :: place) = some entry) :
    design.path (i :: place) = design.path place ++ [entry.name] := by
  rw [path, here, Option.map_some, Option.getD_some]

theorem interfaceIn (here : design.item? place = some entry) : design.interfaceAt place = entry.interface := by
  cases place with
  | nil => exact nomatch here
  | cons i place => rw [interfaceAt, here, Option.map_some, Option.getD_some]

end Design

namespace Design.Of

variable {design : Design} {circuit : Circuit} {library : Library} {root : Nat}
  (of : design.Of circuit library root)
include of

theorem scopeAt {place : Place} {wires : List Wire} {body : Hierarchy}
    (here : design.scope? place = some (wires, body)) :
    ∃ id, circuit.Within root (design.path place) id ∧ design.interfaceAt place = (circuit.definition id).interface ∧
      Hierarchy.Expanded circuit library id wires body := by
  induction place generalizing wires body with
  | nil =>
    cases here
    exact ⟨root, .root, of.interface, of.expanded⟩
  | cons i place ih =>
    unfold scope? at here
    split at here
    · rename_i outerWires outer found
      split at here
      · rename_i entry
        cases here
        obtain ⟨id, within, -, expanded⟩ := ih found
        obtain ⟨inst, member, expands⟩ := expanded.entryAt entry
        have here := (entryIn found).trans entry
        have named := expands.name
        rw [pathIn here, interfaceIn here, named]
        cases expands with
        | scope part known inside =>
          exact ⟨_, within.inside (List.mem_of_getElem? member) part known, rfl, inside⟩
      · exact nomatch here
    · exact nomatch here

theorem withinPlace {path : List String} {id : Nat} (within : circuit.Within root path id) :
    ∃ place wires body, design.scope? place = some (wires, body) ∧ design.path place = path ∧
      design.interfaceAt place = (circuit.definition id).interface ∧
      Hierarchy.Expanded circuit library id wires body := by
  induction within with
  | root => exact ⟨[], design.wires, design.body, rfl, rfl, of.interface, of.expanded⟩
  | @inside path id child inst name outer mem part found ih =>
    obtain ⟨place, wires, body, scope, same, -, expanded⟩ := ih
    obtain ⟨i, here⟩ := List.mem_iff_getElem?.mp mem
    obtain ⟨entry, at', expands⟩ := expanded.instanceAt here
    have item := (entryIn scope).trans at'
    have named := pathIn item
    rw [expands.name, same] at named
    cases expands with
    | primitive part' => exact nomatch part.symm.trans part'
    | @scope name' child' wires' inner part' found' inside =>
      have names : name = name' := Part.definition.inj (part.symm.trans part')
      subst names
      have same : child = child' := Except.ok.inj (found.symm.trans found')
      subst same
      refine ⟨i :: place, wires', inner, ?_, named, interfaceIn item, inside⟩
      rw [scope?, scope]
      simp only [at']

end Design.Of

end CircuitSim
