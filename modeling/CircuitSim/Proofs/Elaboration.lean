import CircuitSim.Proofs.Instantiation
import CircuitSim.Proofs.Naming
import CircuitSim.Proofs.Nets

/-! When a definition can be expanded: what it is made of is known, its widths are supported and its nets join pins
that fit, and the same holds of all that it instantiates. Main statements: `expandSound`, `expandFinds`. -/
namespace CircuitSim
open Hierarchy (Distinct Listed)

namespace Circuit

theorem validateKnown {circuit : Circuit} (ok : circuit.validate = .ok ()) (id : Nat) :
    ∀ name ∈ (circuit.definition id).children, ∃ child, circuit.lookup name = .ok child := by
  intro name mem
  obtain ⟨inst, listed, part⟩ := childInstance mem
  exact (validateInstances ok id inst listed).2 name part

inductive Exposes (circuit : Circuit) : Part → Interface → Prop
  | primitive {kind place : String} {args : Args} {primitive : Primitive}
      (built : Library.builtin.build kind args place = .ok primitive) :
      Exposes circuit (.primitive kind args) primitive.interface
  | definition {name : String} {child : Nat} (found : circuit.lookup name = .ok child) :
      Exposes circuit (.definition name) (circuit.definition child).interface

inductive SourcePin (circuit : Circuit) (id : Nat) : Pin → Nat → Prop
  | port {port : Port} (mem : port ∈ (circuit.definition id).inputs) : SourcePin circuit id (.own port.name) port.width
  | pin {inst : Instance} {interface : Interface} {port : Port} (mem : inst ∈ (circuit.definition id).instances)
      (exposes : circuit.Exposes inst.part interface) (listed : port ∈ interface.outputs) :
      SourcePin circuit id (.of inst.name port.name) port.width

inductive SinkPin (circuit : Circuit) (id : Nat) : Pin → Nat → Prop
  | port {port : Port} (mem : port ∈ (circuit.definition id).outputs) : SinkPin circuit id (.own port.name) port.width
  | pin {inst : Instance} {interface : Interface} {port : Port} (mem : inst ∈ (circuit.definition id).instances)
      (exposes : circuit.Exposes inst.part interface) (listed : port ∈ interface.inputs) :
      SinkPin circuit id (.of inst.name port.name) port.width

structure Elaborates (circuit : Circuit) (id : Nat) : Prop where
  ports : ∀ port ∈ (circuit.definition id).inputs ++ (circuit.definition id).outputs, 1 ≤ port.width ∧ port.width ≤ 128
  primitives : ∀ inst ∈ (circuit.definition id).instances, ∀ kind args, inst.part = .primitive kind args →
    ∃ place primitive, Library.builtin.build kind args place = .ok primitive
  nets : ∀ net ∈ (circuit.definition id).nets, ∃ width, circuit.SourcePin id net.source width ∧
    ∀ pin ∈ net.sinks, circuit.SinkPin id pin width
  single : ((circuit.definition id).nets.flatMap (·.sinks)).Nodup

end Circuit

def Hierarchy.Realizes (circuit : Circuit) (body : Hierarchy) (instances : List Instance) : Prop :=
  ∀ i, Option.Rel (fun inst entry => entry.Expands circuit .builtin inst) instances[i]? (body.get? i)

namespace Hierarchy.Realizes

variable {circuit : Circuit} {body : Hierarchy} {instances : List Instance} (realizes : body.Realizes circuit instances)
include realizes

theorem names : body.interfaces.map (·.1) = instances.map (·.name) := by
  refine List.ext_getElem? fun i => ?_
  rw [List.getElem?_map, List.getElem?_map, interfacesAt]
  have both := realizes i
  generalize instances[i]? = known at both ⊢
  generalize body.get? i = found at both ⊢
  cases both with
  | none => rfl
  | some expands => simp [expands.name]

theorem interfacesMem {owner : String} {interface : Interface} : (owner, interface) ∈ body.interfaces ↔
    ∃ inst ∈ instances, inst.name = owner ∧ circuit.Exposes inst.part interface := by
  constructor
  · intro mem
    obtain ⟨i, here⟩ := List.mem_iff_getElem?.mp mem
    rw [interfacesAt] at here
    obtain ⟨entry, at', same⟩ := Option.map_eq_some_iff.mp here
    cases same
    have both := realizes i
    rw [at'] at both
    cases known : instances[i]? with
    | none =>
      rw [known] at both
      exact nomatch both
    | some inst =>
      rw [known] at both
      obtain ⟨expands⟩ := both
      refine ⟨inst, List.mem_of_getElem? known, expands.name.symm, ?_⟩
      cases expands with
      | primitive part built => exact part ▸ .primitive built
      | scope part found => exact part ▸ .definition found
  · rintro ⟨inst, mem, rfl, exposes⟩
    obtain ⟨i, known⟩ := List.mem_iff_getElem?.mp mem
    have both := realizes i
    rw [known] at both
    cases at' : body.get? i with
    | none =>
      rw [at'] at both
      exact nomatch both
    | some entry =>
      rw [at'] at both
      obtain ⟨expands⟩ := both
      have same : entry.interface = interface := by
        cases expands with
        | primitive part built =>
          rw [part] at exposes
          obtain ⟨built'⟩ := exposes
          rw [Primitive.buildSame built built']
          rfl
        | scope part found =>
          rw [part] at exposes
          cases exposes with
          | definition found' =>
            rw [Except.ok.inj (found'.symm.trans found)]
            rfl
      refine List.mem_iff_getElem?.mpr ⟨i, ?_⟩
      rw [interfacesAt, at', Option.map_some, expands.name, same]

variable (named : circuit.Named)
include named

theorem distinct {id : Nat} (own : instances = (circuit.definition id).instances) :
    Distinct (circuit.definition id).interface body.interfaces := by
  refine ⟨named.ports id, ?_, fun entry mem => ?_⟩
  · rw [realizes.names, own]
    exact named.instances id
  · obtain ⟨owner, interface⟩ := entry
    obtain ⟨inst, -, -, exposes⟩ := realizes.interfacesMem.mp mem
    generalize inst.part = part at exposes
    cases exposes with
    | primitive => exact Primitive.portsNamed _
    | definition => exact named.ports _

end Hierarchy.Realizes

section Pins

variable {circuit : Circuit} {id width : Nat} {body : Hierarchy} {pin : Pin}
  (realizes : body.Realizes circuit (circuit.definition id).instances)
include realizes

theorem Circuit.sourcePinIff :
    Listed (circuit.definition id).inputs (·.outputs) body.interfaces pin width ↔ circuit.SourcePin id pin width := by
  constructor
  · obtain ⟨owner, name⟩ := pin
    cases owner with
    | none => exact fun mem => .port mem
    | some owner =>
      rintro ⟨interface, mem, listed⟩
      obtain ⟨inst, member, rfl, exposes⟩ := realizes.interfacesMem.mp mem
      exact .pin member exposes listed
  · intro source
    cases source with
    | port mem => exact mem
    | pin mem exposes listed => exact ⟨_, realizes.interfacesMem.mpr ⟨_, mem, rfl, exposes⟩, listed⟩

theorem Circuit.sinkPinIff :
    Listed (circuit.definition id).outputs (·.inputs) body.interfaces pin width ↔ circuit.SinkPin id pin width := by
  constructor
  · obtain ⟨owner, name⟩ := pin
    cases owner with
    | none => exact fun mem => .port mem
    | some owner =>
      rintro ⟨interface, mem, listed⟩
      obtain ⟨inst, member, rfl, exposes⟩ := realizes.interfacesMem.mp mem
      exact .pin member exposes listed
  · intro sink
    cases sink with
    | port mem => exact mem
    | pin mem exposes listed => exact ⟨_, realizes.interfacesMem.mpr ⟨_, mem, rfl, exposes⟩, listed⟩

theorem Circuit.netsIff (named : circuit.Named) {path : List String} :
    (∃ wires, Hierarchy.connectAll path (circuit.definition id) body.interfaces (circuit.definition id).nets [] =
      .ok wires) ↔
    (∀ net ∈ (circuit.definition id).nets, ∃ width, circuit.SourcePin id net.source width ∧
      ∀ pin ∈ net.sinks, circuit.SinkPin id pin width) ∧ ((circuit.definition id).nets.flatMap (·.sinks)).Nodup := by
  rw [Hierarchy.connectAllIff]
  refine and_congr_left fun _ => forall₂_congr fun net _ => ?_
  rw [Hierarchy.fitsIff (realizes.distinct named rfl)]
  refine exists_congr fun width => ?_
  rw [sourcePinIff realizes]
  exact and_congr_right fun _ => forall₂_congr fun pin _ => sinkPinIff realizes

end Pins

namespace Hierarchy

section Faces

variable {circuit : Circuit} {library : Library} {expanded : List String → Nat → Except Fault (List Wire × Hierarchy)}
  {path : List String}

inductive Faces (circuit : Circuit) (library : Library)
    (expanded : List String → Nat → Except Fault (List Wire × Hierarchy)) (path : List String) (inst : Instance) :
    Interface → Prop
  | primitive {kind : String} {args : Args} {primitive : Primitive} (part : inst.part = .primitive kind args)
      (built : library.build kind args (".".intercalate (path ++ [inst.name])) = .ok primitive) :
      Faces circuit library expanded path inst primitive.interface
  | scope {name : String} {child : Nat} {made : List Wire × Hierarchy} (part : inst.part = .definition name)
      (found : circuit.lookup name = .ok child) (stepped : expanded (path ++ [inst.name]) child = .ok made) :
      Faces circuit library expanded path inst (circuit.definition child).interface

theorem facesSame {inst : Instance} {interface interface' : Interface}
    (faces : Faces circuit library expanded path inst interface)
    (faces' : Faces circuit library expanded path inst interface') : interface = interface' := by
  cases faces with
  | primitive part built =>
    cases faces' with
    | primitive part' built' =>
      obtain ⟨rfl, rfl⟩ := Part.primitive.inj (part.symm.trans part')
      rw [Except.ok.inj (built.symm.trans built')]
    | scope part' => exact nomatch part.symm.trans part'
  | scope part found =>
    cases faces' with
    | primitive part' => exact nomatch part.symm.trans part'
    | scope part' found' =>
      obtain rfl := Part.definition.inj (part.symm.trans part')
      rw [Except.ok.inj (found.symm.trans found')]

theorem expandInstancesFinds {instances : List Instance}
    (each : ∀ inst ∈ instances, ∃ interface, Faces circuit library expanded path inst interface) :
    ∃ body, expandInstances circuit library expanded path instances = .ok body := by
  induction instances with
  | nil => exact ⟨.empty, rfl⟩
  | cons inst rest ih =>
    obtain ⟨body, ok⟩ := ih fun other mem => each other (List.mem_cons_of_mem inst mem)
    obtain ⟨interface, faces⟩ := each inst List.mem_cons_self
    unfold expandInstances
    cases faces with
    | @primitive kind args primitive part built =>
      refine ⟨.primitive inst.name primitive body, ?_⟩
      simp only [part, built, ok, bind, Except.bind]
      rfl
    | @scope name child made part found stepped =>
      refine ⟨.scope inst.name child (circuit.definition child).interface made.1 made.2 body, ?_⟩
      simp only [part, found, stepped, ok, bind, Except.bind]
      rfl

theorem expandInstancesFaces {instances : List Instance} {body : Hierarchy}
    (ok : expandInstances circuit library expanded path instances = .ok body) :
    List.Forall₂ (fun inst (entry : String × Interface) =>
      entry.1 = inst.name ∧ Faces circuit library expanded path inst entry.2) instances body.interfaces := by
  induction instances generalizing body with
  | nil =>
    cases ok
    exact .nil
  | cons inst rest ih =>
    cases expandInstancesFirst ok with
    | primitive part built behind => exact .cons ⟨rfl, .primitive part built⟩ (ih behind)
    | scope part found stepped behind => exact .cons ⟨rfl, .scope part found stepped⟩ (ih behind)

section Listing

variable {body : Hierarchy} {instances : List Instance} (faced : List.Forall₂ (fun inst (entry : String × Interface) =>
  entry.1 = inst.name ∧ Faces circuit library expanded path inst entry.2) instances body.interfaces)
include faced

theorem facedMem {entry : String × Interface} : entry ∈ body.interfaces ↔
    ∃ inst ∈ instances, entry.1 = inst.name ∧ Faces circuit library expanded path inst entry.2 := by
  constructor
  · exact Result.forallMem faced entry
  · rintro ⟨inst, mem, named, faces⟩
    obtain ⟨other, listed, named', faces'⟩ := Result.forallMem faced.flip inst mem
    have same : other = entry := Prod.ext (named'.trans named.symm) (facesSame faces' faces)
    exact same ▸ listed

theorem facedDistinct (named : circuit.Named) {id : Nat} (own : instances = (circuit.definition id).instances) :
    Distinct (circuit.definition id).interface body.interfaces := by
  refine ⟨named.ports id, ?_, fun entry mem => ?_⟩
  · have names : body.interfaces.map (·.1) = instances.map (·.name) := by
      rw [← List.forall₂_eq_eq_eq, List.forall₂_map_left_iff, List.forall₂_map_right_iff]
      exact faced.flip.imp fun _ _ both => both.1
    rw [names, own]
    exact named.instances id
  · obtain ⟨inst, -, -, faces⟩ := Result.forallMem faced entry mem
    generalize entry.2 = interface at faces
    cases faces with
    | primitive => exact Primitive.portsNamed _
    | scope => exact named.ports _

end Listing

end Faces

variable {circuit : Circuit} (named : circuit.Named)
include named

theorem expandSound {depth id : Nat} {path : List String} {made : List Wire × Hierarchy}
    (ok : expand circuit .builtin depth path id = .ok made) : circuit.Elaborates id := by
  cases depth with
  | zero => exact nomatch ok
  | succ depth =>
    obtain ⟨_, checked, ok⟩ := Result.okBind ok
    obtain ⟨body, expanded, ok⟩ := Result.okBind ok
    obtain ⟨wires, connected, done⟩ := Result.okBind ok
    have realizes : body.Realizes circuit (circuit.definition id).instances := expandInstancesAt expanded
    obtain ⟨nets, single⟩ := (Circuit.netsIff realizes named).mp ⟨wires, connected⟩
    refine ⟨fun port mem => checkWidth_eq_ok_iff.mp (Result.okForM checked port mem), ?_, nets, single⟩
    intro inst mem kind args part
    obtain ⟨i, known⟩ := List.mem_iff_getElem?.mp mem
    have both := realizes i
    rw [known] at both
    generalize body.get? i = entry at both
    obtain ⟨expands⟩ := both
    cases expands with
    | primitive part' built =>
      obtain ⟨rfl, rfl⟩ := Part.primitive.inj (part.symm.trans part')
      exact ⟨_, _, built⟩
    | scope part' => exact nomatch part.symm.trans part'

variable {root : Nat} (known : ∀ id, ∀ name ∈ (circuit.definition id).children, ∃ child, circuit.lookup name = .ok child)
  (acyclic : ∀ id, circuit.Needs root id → ¬Relation.TransGen circuit.Instantiates id id)
  (elaborates : ∀ id, circuit.Needs root id → circuit.Elaborates id)
include known acyclic elaborates

theorem expandFinds {depth id : Nat} {path : List String} {chain : List Nat} (needs : circuit.Needs root id)
    (around : circuit.Around chain id) (deep : circuit.size < depth + chain.length) :
    ∃ made, expand circuit .builtin depth path id = .ok made := by
  induction depth generalizing id path chain with
  | zero => exact absurd around.short (by omega)
  | succ depth ih =>
    have elaborates := elaborates id needs
    have checked : checkPortWidths path ((circuit.definition id).inputs ++ (circuit.definition id).outputs) = .ok () :=
      Result.forMOk fun port mem => checkWidth_eq_ok_iff.mpr (elaborates.ports port mem)
    have each : ∀ inst ∈ (circuit.definition id).instances,
        ∃ interface, Faces circuit .builtin (expand circuit .builtin depth) path inst interface := by
      intro inst mem
      cases part : inst.part with
      | primitive kind args =>
        obtain ⟨place, primitive, built⟩ := elaborates.primitives inst mem kind args part
        exact ⟨_, .primitive part (Primitive.buildAnywhere built _)⟩
      | definition name =>
        have listed := Circuit.childMem mem part
        obtain ⟨child, found⟩ := known id name listed
        have step : circuit.Instantiates id child := ⟨name, listed, found⟩
        obtain ⟨made, stepped⟩ : ∃ made, expand circuit .builtin depth (path ++ [inst.name]) child = .ok made :=
          ih (needs.tail step) (around.snoc (acyclic id needs) step) (by
            rw [List.length_append, List.length_singleton]
            omega)
        exact ⟨_, .scope part found stepped⟩
    obtain ⟨body, expanded⟩ := expandInstancesFinds each
    have realizes : body.Realizes circuit (circuit.definition id).instances := expandInstancesAt expanded
    obtain ⟨wires, connected⟩ := (@Circuit.netsIff _ _ _ realizes named path).mpr ⟨elaborates.nets, elaborates.single⟩
    refine ⟨(wires, body), ?_⟩
    unfold expand
    simp only [checked, expanded, connected, bind, Except.bind]
    rfl

end Hierarchy

end CircuitSim
