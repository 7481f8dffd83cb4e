import CircuitSim.Proofs.Acceptance
import CircuitSim.Proofs.Tapping
import Mathlib.Data.List.Perm.Basic

/-! Circuits that say the same in another order: definitions, instances, nets and sinks stand anywhere, and there may be
further definitions. What stands at an instance path and which pins are joined is not a matter of order, and neither is
whether a definition can be flattened. Main statement: `Circuit.Alike.flattens`. -/
namespace CircuitSim

structure Net.Shuffled (net net' : Net) : Prop where
  source : net.source = net'.source
  sinks : net.sinks.Perm net'.sinks

structure Definition.Shuffled (definition definition' : Definition) : Prop where
  name : definition.name = definition'.name
  inputs : definition.inputs = definition'.inputs
  outputs : definition.outputs = definition'.outputs
  instances : definition.instances.Perm definition'.instances
  nets : ∃ nets, List.Forall₂ Net.Shuffled definition.nets nets ∧ nets.Perm definition'.nets

theorem Net.Shuffled.symm {net net' : Net} (shuffled : net.Shuffled net') : net'.Shuffled net :=
  ⟨shuffled.source.symm, shuffled.sinks.symm⟩

namespace Definition.Shuffled

variable {definition definition' : Definition} (shuffled : definition.Shuffled definition')
include shuffled

theorem symm : definition'.Shuffled definition := by
  refine ⟨shuffled.name.symm, shuffled.inputs.symm, shuffled.outputs.symm, shuffled.instances.symm, ?_⟩
  obtain ⟨nets, each, perm⟩ := shuffled.nets
  exact List.perm_comp_forall₂ perm.symm (each.flip.imp fun _ _ net => net.symm)

theorem netMem {net : Net} (mem : net ∈ definition.nets) : ∃ net' ∈ definition'.nets, net.Shuffled net' := by
  obtain ⟨nets, each, perm⟩ := shuffled.nets
  obtain ⟨net', listed, same⟩ := Result.forallMem each.flip net mem
  exact ⟨net', perm.subset listed, same⟩

theorem sinksPerm : (definition.nets.flatMap (·.sinks)).Perm (definition'.nets.flatMap (·.sinks)) := by
  obtain ⟨nets, each, perm⟩ := shuffled.nets
  have inner : (definition.nets.map (·.sinks)).flatten.Perm (nets.map (·.sinks)).flatten :=
    List.Perm.flatten_congr (List.forall₂_map_left_iff.mpr (List.forall₂_map_right_iff.mpr
      (each.imp fun _ _ net => net.sinks)))
  rw [← List.flatMap_def, ← List.flatMap_def] at inner
  exact inner.trans (perm.flatMap_right _)

theorem interface : definition.interface = definition'.interface := by
  rw [Definition.interface, Definition.interface, shuffled.inputs, shuffled.outputs]

theorem childMem {name : String} : name ∈ definition.children ↔ name ∈ definition'.children :=
  (shuffled.instances.filterMap _).mem_iff

end Definition.Shuffled

namespace Circuit

/-- The definitions of a circuit in another order, each of them shuffled, and further ones. -/
def Reordered (circuit circuit' : Circuit) : Prop :=
  ∃ definitions added, List.Forall₂ Definition.Shuffled circuit.definitions definitions ∧
    (definitions ++ added).Perm circuit'.definitions

def Namesakes (circuit circuit' : Circuit) (id id' : Nat) : Prop :=
  ∃ name, circuit.lookup name = .ok id ∧ circuit'.lookup name = .ok id'

structure Alike (circuit circuit' : Circuit) (paired : Nat → Nat → Prop) : Prop where
  shuffled : ∀ {id id'}, paired id id' → (circuit.definition id).Shuffled (circuit'.definition id')
  parts : ∀ {id id' name}, paired id id' → name ∈ (circuit.definition id).children → ∃ child child',
    circuit.lookup name = .ok child ∧ circuit'.lookup name = .ok child' ∧ paired child child'
  unique : ∀ {id id' other}, paired id id' → paired id other → id' = other
  single : ∀ {id id' other}, paired id id' → paired other id' → id = other

theorem lookupAt {circuit : Circuit} {name : String} {id : Nat} (found : circuit.lookup name = .ok id) :
    circuit.definitions[id]? = some (circuit.definition id) ∧ (circuit.definition id).name = name := by
  obtain ⟨inside, own, -⟩ := List.findIdx?_eq_some_iff_getElem.mp (lookupFind.mp found)
  have here : circuit.definition id = circuit.definitions[id] := by
    rw [definition, List.getD_eq_getElem?_getD, List.getElem?_eq_getElem inside, Option.getD_some]
  exact ⟨here ▸ List.getElem?_eq_getElem inside, here ▸ of_decide_eq_true own⟩

theorem lookupMem {circuit : Circuit} {definition : Definition} (mem : definition ∈ circuit.definitions) :
    ∃ id, circuit.lookup definition.name = .ok id := by
  cases found : circuit.find? definition.name with
  | none => simpa using List.findIdx?_eq_none_iff.mp found definition mem
  | some id => exact ⟨id, lookupFind.mpr found⟩

theorem reorderedAlike {circuit circuit' : Circuit} (reordered : circuit.Reordered circuit')
    (distinct : (circuit'.definitions.map (·.name)).Nodup) (checked : circuit.validate = .ok ()) :
    circuit.Alike circuit' (circuit.Namesakes circuit') := by
  obtain ⟨definitions, added, each, perm⟩ := reordered
  have moved : ∀ {name id}, circuit.lookup name = .ok id →
      ∃ definition ∈ circuit'.definitions, (circuit.definition id).Shuffled definition ∧ definition.name = name := by
    intro name id found
    obtain ⟨here, named⟩ := lookupAt found
    obtain ⟨definition, at', shuffled⟩ := Result.forallAt each here
    exact ⟨definition, perm.subset (List.mem_append_left _ (List.mem_of_getElem? at')), shuffled,
      shuffled.name.symm.trans named⟩
  have functional : ∀ {circuit : Circuit} {name name' id}, circuit.lookup name = .ok id →
      circuit.lookup name' = .ok id → name = name' :=
    fun found found' => (lookupAt found).2.symm.trans (lookupAt found').2
  refine ⟨?_, ?_, ?_, ?_⟩
  · rintro id id' ⟨name, found, found'⟩
    obtain ⟨definition, mem, shuffled, own⟩ := moved found
    obtain ⟨here, named⟩ := lookupAt found'
    rw [← List.inj_on_of_nodup_map distinct mem (List.mem_of_getElem? here) (own.trans named.symm)]
    exact shuffled
  · intro id id' name _ listed
    obtain ⟨child, found⟩ := validateKnown checked id name listed
    obtain ⟨definition, mem, -, rfl⟩ := moved found
    obtain ⟨child', found'⟩ := lookupMem mem
    exact ⟨child, child', found, found', _, found, found'⟩
  · rintro id id' other ⟨name, found, found'⟩ ⟨name', again, again'⟩
    obtain rfl := functional found again
    exact Except.ok.inj (found'.symm.trans again')
  · rintro id id' other ⟨name, found, found'⟩ ⟨name', again, again'⟩
    obtain rfl := functional found' again'
    exact Except.ok.inj (found.symm.trans again)

namespace Alike

variable {circuit circuit' : Circuit} {paired : Nat → Nat → Prop} (alike : circuit.Alike circuit' paired)
include alike

theorem symm : circuit'.Alike circuit fun id' id => paired id id' := by
  refine ⟨fun pair => (alike.shuffled pair).symm, fun pair listed => ?_, alike.single, alike.unique⟩
  obtain ⟨child, child', found, found', below⟩ := alike.parts pair ((alike.shuffled pair).childMem.mpr listed)
  exact ⟨child', child, found', found, below⟩

theorem child {id id' child : Nat} {name : String} (pair : paired id id')
    (listed : name ∈ (circuit.definition id).children) (found : circuit.lookup name = .ok child) :
    ∃ child', circuit'.lookup name = .ok child' ∧ paired child child' := by
  obtain ⟨other, child', again, found', below⟩ := alike.parts pair listed
  obtain rfl := Except.ok.inj (found.symm.trans again)
  exact ⟨child', found', below⟩

theorem instantiates {id id' below : Nat} (pair : paired id id')
    (steps : Relation.TransGen circuit.Instantiates id below) :
    ∃ below', Relation.TransGen circuit'.Instantiates id' below' ∧ paired below below' := by
  have step : ∀ {id id' child}, paired id id' → circuit.Instantiates id child →
      ∃ child', circuit'.Instantiates id' child' ∧ paired child child' := by
    rintro id id' child pair ⟨name, listed, found⟩
    obtain ⟨child', found', below⟩ := alike.child pair listed found
    exact ⟨child', ⟨name, (alike.shuffled pair).childMem.mp listed, found'⟩, below⟩
  induction steps with
  | single first =>
    obtain ⟨child', first', below⟩ := step pair first
    exact ⟨child', .single first', below⟩
  | tail _ last ih =>
    obtain ⟨outer', before, pair'⟩ := ih
    obtain ⟨child', last', below⟩ := step pair' last
    exact ⟨child', before.tail last', below⟩

variable {root root' : Nat} (roots : paired root root')
include roots

theorem within {path : List String} {id : Nat} (within : circuit.Within root path id) :
    ∃ id', circuit'.Within root' path id' ∧ paired id id' := by
  induction within with
  | root => exact ⟨root', .root, roots⟩
  | inside _ mem part found ih =>
    obtain ⟨id', within', pair⟩ := ih
    obtain ⟨child', found', below⟩ := alike.child pair (childMem mem part) found
    exact ⟨child', .inside within' ((alike.shuffled pair).instances.subset mem) part found', below⟩

theorem needs {id : Nat} (needs : circuit.Needs root id) : ∃ id', circuit'.Needs root' id' ∧ paired id id' := by
  obtain ⟨path, within⟩ := needsWithin.mp needs
  obtain ⟨id', within', pair⟩ := alike.within roots within
  exact ⟨id', needsWithin.mpr ⟨path, within'⟩, pair⟩

theorem acyclic (acyclic : ∀ id, circuit.Needs root id → ¬Relation.TransGen circuit.Instantiates id id) :
    ∀ id', circuit'.Needs root' id' → ¬Relation.TransGen circuit'.Instantiates id' id' := by
  intro id' needs' loop
  obtain ⟨id, needs, pair⟩ := alike.symm.needs roots needs'
  obtain ⟨other, loop', pair'⟩ := alike.symm.instantiates pair loop
  obtain rfl := alike.single pair pair'
  exact acyclic id needs loop'

theorem joined {source sink : List String × String} (joined : circuit.Joined root source sink) :
    circuit'.Joined root' source sink := by
  obtain ⟨within, mem, sink⟩ := joined
  obtain ⟨id', within', pair⟩ := alike.within roots within
  obtain ⟨net', mem', shuffled⟩ := (alike.shuffled pair).netMem mem
  rw [shuffled.source]
  exact .net within' mem' (shuffled.sinks.subset sink)

theorem along {source sink : List String × String}
    (joined : Relation.ReflTransGen (circuit.Joined root) source sink) :
    Relation.ReflTransGen (circuit'.Joined root') source sink :=
  joined.lift id fun _ _ step => alike.joined roots step

variable {library : Library}

theorem builtAt {path : List String} {primitive : Primitive} (built : circuit.BuiltAt library root path primitive) :
    circuit'.BuiltAt library root' path primitive := by
  obtain ⟨outer, mem, part, built⟩ := built
  obtain ⟨id', outer', pair⟩ := alike.within roots outer
  exact .inside outer' ((alike.shuffled pair).instances.subset mem) part built

theorem inputAt {pin : List String × String} {width : Nat} (input : circuit.InputAt library root pin width) :
    circuit'.InputAt library root' pin width := by
  cases input with
  | port within below mem =>
    obtain ⟨id', within', pair⟩ := alike.within roots within
    exact .port within' below ((alike.shuffled pair).inputs ▸ mem)
  | pin built mem => exact .pin (alike.builtAt roots built) mem

theorem labelled {staged : String → Nat} {words : List String → Nat → Nat} {pins : List String × String → Nat}
    (labelled : circuit.Labelled root (circuit.BuiltAt library root) staged words pins) :
    circuit'.Labelled root' (circuit'.BuiltAt library root') staged words pins := by
  refine ⟨fun port mem => labelled.inputs port ((alike.shuffled roots).inputs ▸ mem),
    fun source sink joined => labelled.nets source sink (alike.symm.joined roots joined),
    fun path primitive built => labelled.primitives path primitive (alike.symm.builtAt roots built)⟩

end Alike

end Circuit

namespace Hierarchy

theorem connectShuffled {definition definition' : Definition} (shuffled : definition.Shuffled definition')
    {locals locals' : List (String × Interface)} (distinct : Distinct definition.interface locals)
    (distinct' : Distinct definition'.interface locals') (same : ∀ entry, entry ∈ locals ↔ entry ∈ locals')
    {path path' : List String} (wired : ∃ wires, connectAll path definition locals definition.nets [] = .ok wires) :
    ∃ wires, connectAll path' definition' locals' definition'.nets [] = .ok wires := by
  obtain ⟨fits, single⟩ := connectAllIff.mp wired
  refine connectAllIff.mpr ⟨fun net' mem => ?_, shuffled.sinksPerm.nodup_iff.mp single⟩
  obtain ⟨net, listed, both⟩ := shuffled.symm.netMem mem
  obtain ⟨width, source, sinks⟩ := (fitsIff distinct).mp (fits net listed)
  rw [shuffled.inputs, ← both.source, listedCongr same] at source
  refine (fitsIff distinct').mpr ⟨width, source, fun pin sink => ?_⟩
  rw [← shuffled.outputs, ← listedCongr same]
  exact sinks pin (both.sinks.subset sink)

section Instances

variable {circuit circuit' : Circuit} {library : Library}
  {expanded expanded' : List String → Nat → Except Fault (List Wire × Hierarchy)} {path : List String}
  {instances instances' : List Instance} (perm : instances.Perm instances')
  (each : ∀ inst ∈ instances, ∀ interface, Faces circuit library expanded path inst interface →
    Faces circuit' library expanded' path inst interface)
  {body : Hierarchy} (ok : expandInstances circuit library expanded path instances = .ok body)
include perm each ok

theorem instancesShuffled : ∃ body', expandInstances circuit' library expanded' path instances' = .ok body' ∧
    ∀ entry, entry ∈ body.interfaces ↔ entry ∈ body'.interfaces := by
  have faced := expandInstancesFaces ok
  have faces : ∀ inst ∈ instances', ∃ interface, Faces circuit library expanded path inst interface := by
    intro inst mem
    obtain ⟨entry, -, -, faces⟩ := Result.forallMem faced.flip inst (perm.symm.subset mem)
    exact ⟨_, faces⟩
  obtain ⟨body', ok'⟩ := @expandInstancesFinds circuit' library expanded' path instances' fun inst mem => by
    obtain ⟨interface, faces⟩ := faces inst mem
    exact ⟨interface, each inst (perm.symm.subset mem) interface faces⟩
  refine ⟨body', ok', fun entry => ?_⟩
  rw [facedMem faced, facedMem (expandInstancesFaces ok')]
  constructor
  · rintro ⟨inst, mem, name, faces⟩
    exact ⟨inst, perm.subset mem, name, each inst mem _ faces⟩
  · rintro ⟨inst, mem, name, faces'⟩
    obtain ⟨interface, faces⟩ := faces inst mem
    rw [facesSame faces' (each inst (perm.symm.subset mem) interface faces)]
    exact ⟨inst, perm.symm.subset mem, name, faces⟩

end Instances

section Expand

variable {circuit circuit' : Circuit} {paired : Nat → Nat → Prop} (alike : circuit.Alike circuit' paired)
  (named : circuit.Named) (named' : circuit'.Named) {library : Library} {root' : Nat}
  (acyclic : ∀ id, circuit'.Needs root' id → ¬Relation.TransGen circuit'.Instantiates id id)
include alike named named' acyclic

theorem expandAlike {depth depth' id id' : Nat} {path : List String} {chain : List Nat} {made : List Wire × Hierarchy}
    (pair : paired id id') (needs : circuit'.Needs root' id') (around : circuit'.Around chain id')
    (deep : circuit'.size < depth' + chain.length) (ok : expand circuit library depth path id = .ok made) :
    ∃ made', expand circuit' library depth' path id' = .ok made' := by
  induction depth' generalizing depth id id' path chain made with
  | zero => exact absurd around.short (by omega)
  | succ depth' ih =>
    cases depth with
    | zero => exact nomatch ok
    | succ depth =>
      obtain ⟨_, checked, ok⟩ := Result.okBind ok
      obtain ⟨body, expanded, ok⟩ := Result.okBind ok
      obtain ⟨wires, connected, -⟩ := Result.okBind ok
      have shuffled := alike.shuffled pair
      have each : ∀ inst ∈ (circuit.definition id).instances, ∀ interface,
          Faces circuit library (expand circuit library depth) path inst interface →
            Faces circuit' library (expand circuit' library depth') path inst interface := by
        intro inst mem interface faces
        cases faces with
        | primitive part built => exact .primitive part built
        | scope part found stepped =>
          have listed := Circuit.childMem mem part
          obtain ⟨child', found', below⟩ := alike.child pair listed found
          have step : circuit'.Instantiates id' child' := ⟨_, shuffled.childMem.mp listed, found'⟩
          obtain ⟨made', stepped'⟩ := ih below (needs.tail step) (around.snoc (acyclic id' needs) step) (by
            rw [List.length_append, List.length_singleton]
            omega) stepped
          rw [(alike.shuffled below).interface]
          exact .scope part found' stepped'
      obtain ⟨body', expanded', same⟩ := instancesShuffled shuffled.instances each expanded
      obtain ⟨wires', connected'⟩ : ∃ wires', connectAll path (circuit'.definition id') body'.interfaces
          (circuit'.definition id').nets [] = .ok wires' :=
        connectShuffled shuffled (facedDistinct (expandInstancesFaces expanded) named rfl)
          (facedDistinct (expandInstancesFaces expanded') named' rfl) same ⟨wires, connected⟩
      rw [shuffled.inputs, shuffled.outputs] at checked
      refine ⟨(wires', body'), ?_⟩
      unfold expand
      simp only [checked, expanded', connected', bind, Except.bind]
      rfl

end Expand

end Hierarchy

namespace Design.Built

variable {design : Design} {circuit : Circuit} {library : Library} {root : Nat}
  (built : design.Built circuit library root) (named : circuit.Named)
include built named

theorem builtLeaf {path : List String} {primitive : Primitive} (inside : circuit.BuiltAt library root path primitive) :
    ∃ leaf, design.leaves[design.leaves.findIdx (·.path = path)]? = some leaf ∧ leaf.path = path ∧
      leaf.primitive = primitive := by
  obtain ⟨place, name, item, rfl⟩ := built.builtItem named inside
  obtain ⟨leaf, here, rfl⟩ := findLeaf item
  obtain ⟨path, name', item'⟩ := leavesEntry leaf (List.mem_of_getElem? here)
  rw [item] at item'
  obtain ⟨-, rfl⟩ := Entry.primitive.inj (Option.some.inj item')
  rw [← path, built.of.leafNumber named here]
  exact ⟨leaf, here, rfl, rfl⟩

end Design.Built

section Flatten

variable {circuit circuit' : Circuit} {paired : Nat → Nat → Prop} (alike : circuit.Alike circuit' paired)
  (named : circuit.Named) (named' : circuit'.Named) {library : Library} {root root' : Nat} (roots : paired root root')
  {design design' : Design} {graph : Graph} (made : design.Made circuit library root graph)
  (built' : design'.Built circuit' library root')

namespace Design
include alike roots made built'

include named' in
theorem makesAlike {slot slot' : Slot} {pin : List String × String} {width width' : Nat} {origin : Origin}
    (known : design.slot? slot = some (pin, width)) (makes : design.Makes slot origin)
    (known' : design'.slot? slot' = some (pin, width')) : ∃ origin', design'.Makes slot' origin' := by
  obtain ⟨first, originAt, joined⟩ := made.of.makesJoined makes known
  have joined' := alike.along roots joined
  cases origin with
  | input k =>
    obtain ⟨port, here, same⟩ := Option.map_eq_some_iff.mp originAt
    cases same
    have start : design'.slot? (.input [] k) = some (([], port.name), port.width) := by
      refine inputSlot ?_
      rw [interfaceAt, built'.of.interface, ← (alike.shuffled roots).interface, ← made.of.interface]
      exact here
    exact ⟨.input k, built'.of.alongMakes named' joined' start (.origin rfl) known'⟩
  | primitive place =>
    simp only [origin?] at originAt
    split at originAt
    · rename_i name primitive item
      cases originAt
      obtain ⟨place', name', item', path⟩ := built'.builtItem named' (alike.builtAt roots (made.built.itemBuilt item))
      have start := (outputOrigin item').trans (by simp only [origin?, item']; rfl)
      rw [path] at start
      exact ⟨.primitive place', built'.of.alongMakes named' joined' start (.output item') known'⟩
    · cases originAt

include named named' in
theorem orderAlike {nodes : List Node} (all : List.Forall₂ design'.NodeOf design'.leaves nodes) :
    ∃ order, schedule nodes = .ok order := by
  have ordered := (scheduleIff (made.of.nodesComplete named made.flat.nodes)).mp
    ⟨_, made.flat.order⟩
  refine (scheduleIff (built'.of.nodesComplete named' all)).mpr fun i loop => ?_
  let number (i : Nat) : Nat := design.leaves.findIdx (·.path = (design'.leaves.getD i default).path)
  refine ordered _ (loop.lift number fun j i feeds => ?_)
  obtain ⟨maker', user', here, here', k, reads, joined⟩ := (built'.of.feedsJoined named' all).mp feeds
  have numbered : ∀ {j : Nat} {leaf' : Leaf}, design'.leaves[j]? = some leaf' → ∃ leaf,
      design.leaves[number j]? = some leaf ∧ leaf.path = leaf'.path ∧ leaf.primitive = leaf'.primitive := by
    intro j leaf' here
    have inside := alike.symm.builtAt roots (built'.leaves leaf' (List.mem_of_getElem? here))
    simp only [number, List.getD_eq_getElem?_getD, here, Option.getD_some]
    exact made.built.builtLeaf named inside
  obtain ⟨maker, at', path, primitive⟩ := numbered here
  obtain ⟨user, at'', path', primitive'⟩ := numbered here'
  have joined' := alike.symm.along roots joined
  rw [← path, ← path', ← primitive, ← primitive'] at joined'
  rw [← primitive'] at reads
  exact (made.of.feedsJoined named made.flat.nodes).mpr ⟨maker, user, at', at'', k, reads, joined'⟩

include named named' in
theorem flattensAlike : ∃ graph', design'.flatten = .ok graph' := by
  refine flattenFrom (fun place' entry' item' k port known => ?_) (fun k port known => ?_) fun nodes all =>
    orderAlike alike named named' roots made built' all
  · have input := alike.symm.inputAt roots (built'.itemInput item' (List.mem_of_getElem? known))
    obtain ⟨place, entry, item, path, mem⟩ := made.built.inputItem named input
    obtain ⟨j, here⟩ := List.mem_iff_getElem?.mp mem
    obtain ⟨origin, -, -, makes, -⟩ := made.flat.inputMakes made.of item here
    have slot : design.slot? (.input place j) = some ((design.path place, port.name), port.width) :=
      inputSlot (by rw [interfaceIn item]; exact here)
    rw [path] at slot
    have slot' : design'.slot? (.input place' k) = some ((design'.path place', port.name), port.width) :=
      inputSlot (by rw [interfaceIn item']; exact known)
    obtain ⟨origin', makes'⟩ := makesAlike alike named' roots made built' slot makes slot'
    exact built'.of.makesSource makes' fun _ _ _ _ same => nomatch same
  · have here : design.interface.outputs[k]? = some port := by
      rw [made.of.interface, (alike.shuffled roots).interface, ← built'.of.interface]
      exact known
    obtain ⟨output, found, rfl⟩ := made.flat.outputAt here
    obtain ⟨origin, -, makes, -⟩ := made.flat.outputMakes k output found
    obtain ⟨origin', makes'⟩ := makesAlike alike named' roots made built' (@outputSlot design [] _ _ here) makes
      (@outputSlot design' [] _ _ known)
    refine built'.of.makesSource makes' fun place j name primitive same => ?_
    cases same
    exact nofun

end Design

theorem Circuit.Alike.flattens (checked : circuit.validate = .ok ()) (checked' : circuit'.validate = .ok ())
    (alike : circuit.Alike circuit' paired) (roots : paired root root')
    (ok : circuit.flatten library root = .ok graph) : ∃ graph', circuit'.flatten library root' = .ok graph' := by
  have named := validateNamed checked
  have named' := validateNamed checked'
  obtain ⟨_, searched, rest⟩ := Result.okBind ok
  obtain ⟨order, reached, -⟩ := Result.okMap searched
  obtain ⟨other, designed, -⟩ := Result.okBind rest
  obtain ⟨spread, expanded, -⟩ := Result.okBind designed
  obtain ⟨design, made⟩ := flattenMade ok
  have acyclic := alike.acyclic roots (reachableIff.mp ⟨order, reached⟩).2
  obtain ⟨order', reached'⟩ := reachableIff.mpr ⟨fun id _ => validateKnown checked' id, acyclic⟩
  obtain ⟨spread', expanded'⟩ : ∃ spread', Hierarchy.expand circuit' library (circuit'.size + 1) [] root' = .ok spread' :=
    Hierarchy.expandAlike alike named named' acyclic roots .refl (.nil root') (Nat.lt_succ_self circuit'.size) expanded
  have designed' : Design.ofCircuit circuit' library root' = .ok ⟨(circuit'.definition root').name, root',
      (circuit'.definition root').interface, spread'.1, spread'.2⟩ := by
    rw [Design.ofCircuit]
    simp only [expanded', bind, Except.bind]
    rfl
  obtain ⟨graph', flat'⟩ := Design.flattensAlike alike named named' roots made (Design.ofCircuitBuilt designed')
  refine ⟨graph', ?_⟩
  rw [flatten, reached', designed']
  exact flat'

end Flatten

end CircuitSim
