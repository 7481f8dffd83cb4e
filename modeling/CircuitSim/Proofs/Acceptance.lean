import CircuitSim.Proofs.Elaboration
import CircuitSim.Proofs.Subcircuit
import CircuitSim.Proofs.Tapping
import CircuitSim.Proofs.Walking

/-! Which definitions can be flattened: those whose parts are known and joined by nets that fit, in which every signal
that is needed is made somewhere, and in which no signal is needed for itself within a step. Main statement:
`flattenIff`. -/
namespace CircuitSim

namespace Circuit

inductive Made (circuit : Circuit) (root : Nat) : List String × String → Prop
  | input {port : Port} (mem : port ∈ (circuit.definition root).inputs) : Made circuit root ([], port.name)
  | output {path : List String} {primitive : Primitive} (within : circuit.PrimitiveAt root path primitive) :
      Made circuit root (path, primitive.output.1)

inductive Awaits (circuit : Circuit) (root : Nat) : List String × String → Prop
  | output {port : Port} (mem : port ∈ (circuit.definition root).outputs) : Awaits circuit root ([], port.name)
  | input {path : List String} {id : Nat} {inst : Instance} {interface : Interface} {port : Port}
      (within : circuit.Within root path id) (mem : inst ∈ (circuit.definition id).instances)
      (exposes : circuit.Exposes inst.part interface) (listed : port ∈ interface.inputs) :
      Awaits circuit root (path ++ [inst.name], port.name)

inductive Feeds (circuit : Circuit) (root : Nat) : List String → List String → Prop
  | along {path path' : List String} {primitive primitive' : Primitive} {k : Nat}
      (maker : circuit.PrimitiveAt root path primitive) (user : circuit.PrimitiveAt root path' primitive')
      (reads : k ∈ primitive'.reads)
      (joined : Relation.ReflTransGen (circuit.Joined root) (path, primitive.output.1)
        (path', (primitive'.inputs.getD k default).1)) : Feeds circuit root path path'

/-- A definition without recursion, whose parts can be expanded, whose pins are driven and whose loops all go through
state. -/
structure WellFormed (circuit : Circuit) (root : Nat) : Prop where
  acyclic : ∀ id, circuit.Needs root id → ¬Relation.TransGen circuit.Instantiates id id
  elaborates : ∀ id, circuit.Needs root id → circuit.Elaborates id
  driven : ∀ pin, circuit.Awaits root pin → ∃ source, circuit.Made root source ∧
    Relation.ReflTransGen (circuit.Joined root) source pin
  ordered : ∀ path, ¬Relation.TransGen (circuit.Feeds root) path path

end Circuit

namespace Design.Of

section Joins

variable {design : Design} {circuit : Circuit} {library : Library} {root : Nat} (of : design.Of circuit library root)
include of

theorem makesSource {slot : Slot} {origin : Origin} (made : design.Makes slot origin)
    (other : ∀ place k name primitive, slot = .output place k → design.item? place ≠ some (.primitive name primitive)) :
    ∃ source, design.source design.leaves slot = .ok source := by
  rw [source, (of.originIff other).mpr made]
  cases origin with
  | input k => exact ⟨.input k, rfl⟩
  | primitive place => exact ⟨.node _, rfl⟩

variable (named : circuit.Named)
include named

theorem alongMakes {source sink : List String × String} (joined : Relation.ReflTransGen (circuit.Joined root) source sink)
    {slot : Slot} {width : Nat} (known : design.slot? slot = some (source, width)) {origin : Origin}
    (made : design.Makes slot origin) {slot' : Slot} {width' : Nat} (known' : design.slot? slot' = some (sink, width')) :
    design.Makes slot' origin := by
  obtain ⟨last, width'', at', made'⟩ : ∃ last width'', design.slot? last = some (sink, width'') ∧
      design.Makes last origin := by
    clear known'
    induction joined with
    | refl => exact ⟨slot, width, known, made⟩
    | tail _ step ih =>
      obtain ⟨between, width'', at', made'⟩ := ih
      exact of.joinedMakes named step at' made'
  obtain rfl := of.slotInj named at' known'
  exact made'

omit of named in
theorem operandName {primitive : Primitive} {k : Nat} (inside : k < primitive.inputs.length) :
    (primitive.inputs.getD k default).1 = primitive.inputs[k].1 := by
  rw [List.getD_eq_getElem?_getD, List.getElem?_eq_getElem inside, Option.getD_some]

theorem leafNumber {i : Nat} {leaf : Leaf} (here : design.leaves[i]? = some leaf) :
    design.leaves.findIdx (·.path = leaf.path) = i := by
  have mem := List.mem_of_getElem? here
  have inside := List.findIdx_lt_length_of_exists (p := fun other => decide (other.path = leaf.path))
    ⟨leaf, mem, decide_eq_true rfl⟩
  have found := List.getElem?_eq_getElem inside
  have same := of_decide_eq_true (List.findIdx_getElem (w := inside))
  obtain ⟨own, name, item⟩ := leavesEntry leaf mem
  obtain ⟨own', name', item'⟩ := leavesEntry _ (List.mem_of_getElem? found)
  have place := of.pathInj named (.inr ⟨_, item'⟩) (.inr ⟨_, item⟩) (own'.symm.trans (same.trans own))
  exact Result.indexInj Hierarchy.leavesDistinct found here place

variable {nodes : List Node} (all : List.Forall₂ design.NodeOf design.leaves nodes)
include all

omit of named in
theorem nodeInputs {i : Nat} {leaf : Leaf} (here : design.leaves[i]? = some leaf) :
    Schedule.makers (nodes.getD i default) = leaf.primitive.reads.filterMap fun k =>
      match design.source design.leaves (.input leaf.place k) with
      | .ok (.node j) => some j
      | _ => none := by
  obtain ⟨node, found, stands⟩ := Result.forallAt all here
  rw [List.getD_eq_getElem?_getD, found, Option.getD_some, Schedule.makers, stands.primitive]
  refine List.filterMap_congr fun k reads => ?_
  have inside := leaf.primitive.reads_lt k reads
  obtain ⟨source, at', ok⟩ := Result.forallAt stands.inputs (List.getElem?_range inside)
  rw [at', ok]
  cases source with
  | input | node => rfl

theorem feedsJoined {i j : Nat} : Node.Feeds nodes j i ↔ ∃ maker user, design.leaves[j]? = some maker ∧
    design.leaves[i]? = some user ∧ ∃ k ∈ user.primitive.reads,
      Relation.ReflTransGen (circuit.Joined root) (maker.path, maker.primitive.output.1)
        (user.path, (user.primitive.inputs.getD k default).1) := by
  constructor
  · intro feeds
    have known : i < design.leaves.length := all.length_eq ▸ feeds.inside
    have here' := List.getElem?_eq_getElem known
    rw [Node.Feeds, nodeInputs all here'] at feeds
    obtain ⟨k, reads, feeds⟩ := List.mem_filterMap.mp feeds
    split at feeds
    · rename_i _ ok
      cases feeds
      have inside := design.leaves[i].primitive.reads_lt k reads
      obtain ⟨origin, first, originAt, sourced, joined⟩ := of.sourceJoined ok (leafSlot (List.getElem_mem known) inside)
      cases sourced with
      | @node place _ leaf here same =>
        obtain ⟨path, name, item⟩ := leavesEntry leaf (List.mem_of_getElem? here)
        simp only [← same, origin?, item] at originAt
        obtain ⟨rfl, -⟩ := Prod.mk.inj (Option.some.inj originAt)
        rw [← operandName inside, ← path] at joined
        exact ⟨leaf, _, here, here', k, reads, joined⟩
    · cases feeds
  · rintro ⟨maker, user, here, here', k, reads, joined⟩
    have mem' := List.mem_of_getElem? here'
    obtain ⟨same, name, item⟩ := leavesEntry maker (List.mem_of_getElem? here)
    have inside := user.primitive.reads_lt k reads
    rw [operandName inside, same] at joined
    have known := (outputOrigin item).trans (by simp only [origin?, item]; rfl)
    -- the slot that reads has the leaf that makes the signal as its origin
    have made := of.alongMakes named joined known (.output item) (leafSlot mem' inside)
    have driven : ∀ place k' name primitive, Slot.input user.place k = .output place k' →
        design.item? place ≠ some (.primitive name primitive) := by
      intro _ _ _ _ same
      cases same
    rw [Node.Feeds, nodeInputs all here']
    refine List.mem_filterMap.mpr ⟨k, reads, ?_⟩
    rw [Design.source, (of.originIff driven).mpr made]
    exact congrArg some (leafIndex here)

theorem nodesComplete : ∀ node ∈ nodes, Schedule.complete nodes.length node = true := by
  intro node mem
  obtain ⟨i, known⟩ := List.mem_iff_getElem?.mp mem
  obtain ⟨leaf, -, stands⟩ := Result.forallAt all.flip known
  refine Schedule.completeIff.mpr fun k read => ?_
  have inside := leaf.primitive.reads_lt k (stands.primitive ▸ read)
  obtain ⟨source, here, -⟩ := Result.forallAt stands.inputs (List.getElem?_range inside)
  refine ⟨source, here, fun j same => ?_⟩
  have feeds : Node.Feeds nodes j i := by
    rw [Node.Feeds, List.getD_eq_getElem?_getD, known, Option.getD_some]
    exact Schedule.makersMem read (same ▸ here)
  obtain ⟨maker, -, here', -⟩ := (of.feedsJoined named all).mp feeds
  exact all.length_eq ▸ (List.getElem?_eq_some_iff.mp here').1

end Joins

variable {design : Design} {circuit : Circuit} {root : Nat} (of : design.Of circuit .builtin root)
include of

theorem itemPrimitive {place : Place} {name : String} {primitive : Primitive}
    (here : design.item? place = some (.primitive name primitive)) :
    circuit.PrimitiveAt root (design.path place) primitive := by
  obtain ⟨leaf, found, rfl⟩ := findLeaf here
  have mem := List.mem_of_getElem? found
  obtain ⟨same, name', entry⟩ := leavesEntry leaf mem
  obtain ⟨path, id, inst, kind, args, place, within, listed, part, built, at'⟩ := of.leafBuilt mem
  rw [here] at entry
  cases entry
  rw [← same, at']
  exact .inside within listed part built

theorem instanceItem {path : List String} {id : Nat} {inst : Instance} {interface : Interface}
    (within : circuit.Within root path id) (mem : inst ∈ (circuit.definition id).instances)
    (exposes : circuit.Exposes inst.part interface) : ∃ place entry, design.item? place = some entry ∧
      design.path place = path ++ [inst.name] ∧ entry.interface = interface := by
  obtain ⟨place, wires, body, found, rfl, -, expanded⟩ := of.withinPlace within
  obtain ⟨i, known⟩ := List.mem_iff_getElem?.mp mem
  obtain ⟨entry, at', expands⟩ := expanded.instanceAt known
  have item := (entryIn found).trans at'
  refine ⟨i :: place, entry, item, expands.name ▸ pathIn item, ?_⟩
  cases expands with
  | primitive part built =>
    rw [part] at exposes
    obtain ⟨built'⟩ := exposes
    rw [Primitive.buildSame built built']
    rfl
  | scope part found =>
    rw [part] at exposes
    cases exposes with
    | definition found' =>
      exact congrArg (fun child => (circuit.definition child).interface) (Except.ok.inj (found.symm.trans found'))

theorem itemAwaits {place : Place} {entry : Entry} (here : design.item? place = some entry) {port : Port}
    (listed : port ∈ entry.interface.inputs) : circuit.Awaits root (design.path place, port.name) := by
  cases place with
  | nil => exact nomatch here
  | cons i place =>
    obtain ⟨wires, body, found, at'⟩ := itemScope here
    obtain ⟨id, within, -, expanded⟩ := of.scopeAt found
    obtain ⟨inst, known, expands⟩ := expanded.entryAt at'
    have exposes : circuit.Exposes inst.part entry.interface := by
      cases expands with
      | primitive part built => exact part ▸ .primitive built
      | scope part found => exact part ▸ .definition found
    rw [pathIn here, expands.name]
    exact .input within (List.mem_of_getElem? known) exposes listed

theorem originMade {origin : Origin} {pin : List String × String} {width : Nat}
    (known : design.origin? origin = some (pin, width)) : circuit.Made root pin := by
  cases origin with
  | input k =>
    obtain ⟨port, here, same⟩ := Option.map_eq_some_iff.mp known
    cases same
    rw [of.interface] at here
    exact .input (List.mem_of_getElem? here)
  | primitive place =>
    simp only [origin?] at known
    split at known
    · rename_i name primitive here
      cases known
      exact .output (of.itemPrimitive here)
    · cases known

theorem madeSlot {pin : List String × String} (made : circuit.Made root pin) :
    ∃ slot width origin, design.slot? slot = some (pin, width) ∧ design.Makes slot origin := by
  cases made with
  | @input port mem =>
    obtain ⟨k, here⟩ := List.mem_iff_getElem?.mp mem
    have known : design.slot? (.input [] k) = some (([], port.name), port.width) := by
      refine @inputSlot design [] _ _ ?_
      rw [interfaceAt, of.interface]
      exact here
    exact ⟨.input [] k, _, .input k, known, .origin rfl⟩
  | @output path primitive within =>
    obtain ⟨place, name, here, rfl⟩ := of.primitiveItem within
    refine ⟨.output place 0, primitive.width, .primitive place, ?_, .output here⟩
    rw [outputOrigin here]
    simp only [origin?, here]

variable (named : circuit.Named)
include named

section Nodes

variable {nodes : List Node} (all : List.Forall₂ design.NodeOf design.leaves nodes)
include all

theorem makerFeeds {i j : Nat} (maker : Node.Feeds nodes j i) :
    circuit.Feeds root (design.leaves.getD j default).path (design.leaves.getD i default).path := by
  obtain ⟨leaf, leaf', here, here', k, reads, joined⟩ := (of.feedsJoined named all).mp maker
  obtain ⟨path, name, item⟩ := leavesEntry leaf (List.mem_of_getElem? here)
  obtain ⟨path', name', item'⟩ := leavesEntry leaf' (List.mem_of_getElem? here')
  have feeds := Circuit.Feeds.along (path ▸ of.itemPrimitive item) (path' ▸ of.itemPrimitive item') reads joined
  rw [List.getD_eq_getElem?_getD, List.getD_eq_getElem?_getD, here, here']
  exact feeds

theorem feedsMaker {path path' : List String} (feeds : circuit.Feeds root path path') :
    Node.Feeds nodes (design.leaves.findIdx (·.path = path)) (design.leaves.findIdx (·.path = path')) := by
  cases feeds
  rename_i primitive primitive' k maker user reads joined
  obtain ⟨place, name, item, rfl⟩ := of.primitiveItem maker
  obtain ⟨place', name', item', rfl⟩ := of.primitiveItem user
  obtain ⟨leaf, here, rfl⟩ := findLeaf item
  obtain ⟨leaf', here', rfl⟩ := findLeaf item'
  obtain ⟨same, _, entry⟩ := leavesEntry leaf (List.mem_of_getElem? here)
  obtain ⟨same', _, entry'⟩ := leavesEntry leaf' (List.mem_of_getElem? here')
  rw [item] at entry
  rw [item'] at entry'
  obtain ⟨-, rfl⟩ := Entry.primitive.inj (Option.some.inj entry)
  obtain ⟨-, rfl⟩ := Entry.primitive.inj (Option.some.inj entry')
  rw [← same, ← same'] at joined ⊢
  rw [of.leafNumber named here, of.leafNumber named here']
  exact (of.feedsJoined named all).mpr ⟨leaf, leaf', here, here', k, reads, joined⟩

theorem scheduleOrdered : (∃ order, schedule nodes = .ok order) ↔
    ∀ path, ¬Relation.TransGen (circuit.Feeds root) path path := by
  rw [scheduleIff (of.nodesComplete named all)]
  constructor
  · exact fun acyclic path loop =>
      acyclic _ (loop.lift (fun path => design.leaves.findIdx (·.path = path)) fun _ _ feeds =>
        of.feedsMaker named all feeds)
  · exact fun ordered i loop =>
      ordered _ (loop.lift (fun i => (design.leaves.getD i default).path) fun _ _ maker =>
        of.makerFeeds named all maker)

end Nodes

end Design.Of

namespace Design

variable {design : Design}

theorem nodesFind {all leaves : List Leaf}
    (inputs : ∀ leaf ∈ leaves, ∀ k < leaf.primitive.inputs.length,
      ∃ source, design.source all (.input leaf.place k) = .ok source)
    (offset : Nat) : ∃ nodes, design.nodes all offset leaves = .ok nodes := by
  induction leaves generalizing offset with
  | nil => exact ⟨[], rfl⟩
  | cons leaf rest ih =>
    obtain ⟨sources, first⟩ : ∃ sources, ((List.range leaf.primitive.inputs.length).mapM fun k =>
        design.source all (.input leaf.place k)) = .ok sources :=
      Result.mapMOk fun k mem => inputs leaf List.mem_cons_self k (List.mem_range.mp mem)
    obtain ⟨nodes, behind⟩ := ih (fun other mem => inputs other (List.mem_cons_of_mem leaf mem))
      (offset + leaf.primitive.stateBytes)
    refine ⟨⟨leaf.path, leaf.primitive, sources, offset, leaf.definition⟩ :: nodes, ?_⟩
    unfold Design.nodes
    simp only [first, behind, bind, Except.bind]
    rfl

theorem flattenFrom
    (inputs : ∀ place entry, design.item? place = some entry → ∀ (k : Nat) (port : Port),
      entry.interface.inputs[k]? = some port → ∃ source, design.source design.leaves (.input place k) = .ok source)
    (outputs : ∀ (k : Nat) (port : Port), design.interface.outputs[k]? = some port →
      ∃ source, design.source design.leaves (.output [] k) = .ok source)
    (ordered : ∀ nodes, List.Forall₂ design.NodeOf design.leaves nodes → ∃ order, schedule nodes = .ok order) :
    ∃ graph, design.flatten = .ok graph := by
  obtain ⟨nodes, leaves⟩ := @nodesFind design design.leaves design.leaves
    (fun leaf mem k inside => by
      obtain ⟨-, name, item⟩ := leavesEntry leaf mem
      refine inputs leaf.place _ item k ⟨leaf.primitive.inputs[k].1, leaf.primitive.inputs[k].2⟩ ?_
      simp [Entry.interface, Primitive.interface, List.getElem?_eq_getElem inside]) 0
  obtain ⟨order, scheduled⟩ := ordered nodes (nodesOf leaves).1
  refine Result.bindOk leaves (Result.mapMThen (fun entry mem => ?_) fun ports =>
    Result.mapMThen (fun tap mem => ?_) fun tapped => Result.bindOk scheduled ⟨_, rfl⟩)
  · obtain ⟨source, found⟩ := outputs entry.2 entry.1 (List.mem_zipIdx_iff_getElem?.mp mem)
    exact Result.bindOk found ⟨_, rfl⟩
  · obtain ⟨place, k, entry, slot, -, item, known⟩ := slotEntry tap mem
    obtain ⟨source, found⟩ := inputs place entry item k tap.pin known
    rw [← slot] at found
    exact Result.bindOk found ⟨_, rfl⟩

end Design

namespace Design.Of

variable {design : Design} {circuit : Circuit} {root : Nat} (of : design.Of circuit .builtin root)
  (named : circuit.Named)
include of named

theorem sourceFinds (driven : ∀ pin, circuit.Awaits root pin → ∃ source, circuit.Made root source ∧
      Relation.ReflTransGen (circuit.Joined root) source pin) {slot : Slot} {pin : List String × String} {width : Nat}
    (known : design.slot? slot = some (pin, width)) (awaits : circuit.Awaits root pin)
    (other : ∀ place k name primitive, slot = .output place k → design.item? place ≠ some (.primitive name primitive)) :
    ∃ source, design.source design.leaves slot = .ok source := by
  obtain ⟨first, made, joined⟩ := driven pin awaits
  obtain ⟨start, width', origin, known', made'⟩ := of.madeSlot made
  exact of.makesSource (of.alongMakes named joined known' made' known) other

theorem flattenFinds (wellFormed : circuit.WellFormed root) : ∃ graph, design.flatten = .ok graph := by
  refine flattenFrom (fun place entry here k port known => ?_) (fun k port here => ?_) fun nodes all =>
    (of.scheduleOrdered named all).mpr wellFormed.ordered
  · have slot : design.slot? (.input place k) = some ((design.path place, port.name), port.width) :=
      inputSlot (by rw [interfaceIn here]; exact known)
    refine of.sourceFinds named wellFormed.driven slot (of.itemAwaits here (List.mem_of_getElem? known)) ?_
    intro _ _ _ _ same
    cases same
  · have slot : design.slot? (.output [] k) = some (([], port.name), port.width) := @outputSlot design [] _ _ here
    rw [of.interface] at here
    refine of.sourceFinds named wellFormed.driven slot (.output (List.mem_of_getElem? here)) ?_
    intro place k name primitive same
    cases same
    intro found
    cases found

end Design.Of

namespace Circuit

variable {circuit : Circuit} {root : Nat}

theorem flattenSound (named : circuit.Named) {graph : Graph} (ok : circuit.flatten .builtin root = .ok graph) :
    circuit.WellFormed root := by
  obtain ⟨_, searched, -⟩ := Result.okBind ok
  obtain ⟨order, reached, -⟩ := Result.okMap searched
  obtain ⟨design, of, flat⟩ := flattenOf ok
  obtain ⟨-, acyclic⟩ := reachableIff.mp ⟨order, reached⟩
  refine ⟨acyclic, fun id needs => ?_, fun pin awaits => ?_, (of.scheduleOrdered named flat.nodes).mp ⟨_, flat.order⟩⟩
  · obtain ⟨path, within⟩ := needsWithin.mp needs
    obtain ⟨place, wires, body, -, -, -, depth, at', expanded⟩ := of.withinPlace within
    exact Hierarchy.expandSound named expanded
  · have traced : ∀ {slot width origin}, design.slot? slot = some (pin, width) → design.Makes slot origin →
        ∃ source, circuit.Made root source ∧ Relation.ReflTransGen (circuit.Joined root) source pin := by
      intro slot width origin known made
      obtain ⟨source, originAt, joined⟩ := of.makesJoined made known
      exact ⟨source, of.originMade originAt, joined⟩
    cases awaits with
    | @output port mem =>
      obtain ⟨k, here⟩ := List.mem_iff_getElem?.mp mem
      have known : design.interface.outputs[k]? = some port := by
        rw [of.interface]
        exact here
      obtain ⟨output, found, -⟩ := flat.outputAt known
      obtain ⟨origin, -, made, -⟩ := flat.outputMakes k output found
      exact traced (@Design.outputSlot _ [] _ _ known) made
    | input within mem exposes listed =>
      obtain ⟨place, entry, item, path, rfl⟩ := of.instanceItem within mem exposes
      obtain ⟨k, here⟩ := List.mem_iff_getElem?.mp listed
      obtain ⟨origin, tap, -, made, -⟩ := flat.inputMakes of item here
      exact traced (path ▸ Design.inputSlot (by rw [Design.interfaceIn item]; exact here)) made

/-- A definition of a checked circuit can be flattened exactly when it is well formed. -/
theorem flattenIff (circuit : Circuit) (checked : circuit.validate = .ok ()) (id : Nat) :
    (∃ graph, circuit.flatten .builtin id = .ok graph) ↔ circuit.WellFormed id := by
  have named := validateNamed checked
  constructor
  · rintro ⟨graph, ok⟩
    exact flattenSound named ok
  · intro wellFormed
    have known := validateKnown checked
    obtain ⟨order, reached⟩ := reachableIff.mpr ⟨fun id _ => known id, wellFormed.acyclic⟩
    obtain ⟨made, expanded⟩ := @Hierarchy.expandFinds _ named _ known wellFormed.acyclic wellFormed.elaborates _ _ []
      _ .refl (.nil id) (Nat.lt_succ_self circuit.size)
    have designed : Design.ofCircuit circuit .builtin id =
        .ok ⟨(circuit.definition id).name, id, (circuit.definition id).interface, made.1, made.2⟩ := by
      rw [Design.ofCircuit]
      simp only [expanded, bind, Except.bind]
      rfl
    obtain ⟨graph, flat⟩ := (Design.ofCircuitOf designed).flattenFinds named wellFormed
    refine ⟨graph, ?_⟩
    rw [flatten, reached, designed]
    exact flat

theorem cellsWellFormed : cells.validate = .ok () ∧ cells.WellFormed 1 :=
  ⟨rfl, (flattenIff cells rfl 1).mp (by
    cases flat : cells.flatten .builtin 1 with
    | error fault => exact nomatch flat
    | ok graph => exact ⟨graph, rfl⟩)⟩

end Circuit

end CircuitSim
