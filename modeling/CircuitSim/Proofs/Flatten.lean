import CircuitSim.Flat.Flatten
import CircuitSim.Proofs.Evaluation
import CircuitSim.Proofs.Signal

/-! Flattening keeps what a design says: each leaf becomes a node, its pins become the sources where their signals
are made, and a graph that comes out is well formed. -/
namespace CircuitSim

namespace Hierarchy

theorem restAt {rest whole : Hierarchy} {i : Nat} (same : ∀ j, rest.get? j = whole.get? (i + (j + 1))) (j : Nat) :
    rest.get? j = whole.get? (i + 1 + j) := by
  rw [Nat.add_assoc, Nat.add_comm 1 j]
  exact same j

theorem leavesPrimitive {body : Hierarchy} {definition i j : Nat} {path : List String} {place : Place} {name : String}
    {primitive : Primitive} (here : body.get? j = some (.primitive name primitive)) :
    Leaf.mk (path ++ [name]) ((i + j) :: place) primitive definition ∈ body.leaves definition path place i := by
  induction body generalizing i j with
  | empty => exact nomatch here
  | primitive other p rest ih =>
    cases j with
    | zero =>
      cases here
      exact List.mem_cons_self
    | succ j =>
      have behind := @ih (i + 1) j here
      rw [Nat.add_assoc, Nat.add_comm 1 j] at behind
      exact List.mem_cons_of_mem _ behind
  | scope other child interface wires inner rest _ ih =>
    cases j with
    | zero => exact nomatch here
    | succ j =>
      have behind := @ih (i + 1) j here
      rw [Nat.add_assoc, Nat.add_comm 1 j] at behind
      exact List.mem_append_right _ behind

theorem leavesScope {body inner : Hierarchy} {definition i j child : Nat} {path : List String} {place : Place}
    {name : String} {interface : Interface} {wires : List Wire}
    (here : body.get? j = some (.scope name child interface wires inner)) :
    ∃ before behind, body.leaves definition path place i =
      before ++ inner.leaves child (path ++ [name]) ((i + j) :: place) 0 ++ behind := by
  induction body generalizing i j with
  | empty => exact nomatch here
  | primitive other p rest ih =>
    cases j with
    | zero => exact nomatch here
    | succ j =>
      obtain ⟨before, behind, split⟩ := @ih (i + 1) j here
      rw [Nat.add_assoc, Nat.add_comm 1 j] at split
      exact ⟨_ :: before, behind, by rw [leaves, split]; rfl⟩
  | scope other child' interface' wires' inner' rest _ ih =>
    cases j with
    | zero =>
      cases here
      exact ⟨[], _, rfl⟩
    | succ j =>
      obtain ⟨before, behind, split⟩ := @ih (i + 1) j here
      rw [Nat.add_assoc, Nat.add_comm 1 j] at split
      refine ⟨inner'.leaves child' (path ++ [other]) (i :: place) 0 ++ before, behind, ?_⟩
      rw [leaves, split]
      simp only [List.append_assoc]

theorem leavesBelow {body : Hierarchy} {definition i : Nat} {path : List String} {place : Place} :
    ∀ leaf ∈ body.leaves definition path place i, ∃ inner j, i ≤ j ∧ leaf.place = inner ++ j :: place := by
  induction body generalizing definition i path place with
  | empty => exact nofun
  | primitive name p rest ih =>
    intro leaf mem
    rcases List.mem_cons.mp mem with rfl | later
    · exact ⟨[], i, Nat.le_refl i, rfl⟩
    · obtain ⟨inner, j, le, same⟩ := ih leaf later
      exact ⟨inner, j, by omega, same⟩
  | scope name child interface wires inner rest ihInner ih =>
    intro leaf mem
    rcases List.mem_append.mp mem with inside | later
    · obtain ⟨deeper, j, -, same⟩ := ihInner leaf inside
      exact ⟨deeper ++ [j], i, Nat.le_refl i, by rw [same, List.append_assoc]; rfl⟩
    · obtain ⟨inner, j, le, same⟩ := ih leaf later
      exact ⟨inner, j, by omega, same⟩

theorem belowInj {a b : Nat} {inner inner' place : Place} (same : inner ++ a :: place = inner' ++ b :: place) :
    a = b := by
  have lengths := congrArg List.length same
  simp only [List.length_append, List.length_cons] at lengths
  have tails := (List.append_inj same (by omega)).2
  exact (List.cons.inj tails).1

theorem leavesDistinct {body : Hierarchy} {definition i : Nat} {path : List String} {place : Place} :
    ((body.leaves definition path place i).map (·.place)).Nodup := by
  induction body generalizing definition i path place with
  | empty => exact List.nodup_nil
  | primitive name p rest ih =>
    rw [leaves, List.map_cons, List.nodup_cons]
    refine ⟨fun mem => ?_, ih⟩
    obtain ⟨leaf, member, same⟩ := List.mem_map.mp mem
    obtain ⟨inner, j, le, below⟩ := leavesBelow leaf member
    have equal : inner ++ j :: place = [] ++ i :: place := below.symm.trans same
    have index := belowInj equal
    omega
  | scope name child interface wires inner rest ihInner ih =>
    rw [leaves, List.map_append, List.nodup_append]
    refine ⟨ihInner, ih, ?_⟩
    rintro p mem _ mem' rfl
    obtain ⟨leaf, member, rfl⟩ := List.mem_map.mp mem
    obtain ⟨leaf', member', same⟩ := List.mem_map.mp mem'
    obtain ⟨deeper, k, -, below⟩ := leavesBelow leaf member
    obtain ⟨inner', j, le, below'⟩ := leavesBelow leaf' member'
    have equal : inner' ++ j :: place = (deeper ++ [k]) ++ i :: place := by
      rw [← below', same, below, List.append_assoc]
      rfl
    have index := belowInj equal
    omega

end Hierarchy

namespace Design

variable {design : Design}

theorem scopeIn {place : Place} {wires wires' : List Wire} {body inner : Hierarchy} {i child : Nat} {name : String}
    {interface : Interface} (found : design.scope? place = some (wires, body))
    (here : body.get? i = some (.scope name child interface wires' inner)) :
    design.scope? (i :: place) = some (wires', inner) := by
  rw [scope?, found]
  simp only [here]

theorem leafEntry {part whole : Hierarchy} {wires : List Wire} {definition i : Nat} {place : Place}
    (found : design.scope? place = some (wires, whole)) (same : ∀ j, part.get? j = whole.get? (i + j)) :
    ∀ leaf ∈ part.leaves definition (design.path place) place i, leaf.path = design.path leaf.place ∧
      ∃ name, design.item? leaf.place = some (.primitive name leaf.primitive) := by
  induction part generalizing definition i place wires whole with
  | empty => exact nofun
  | primitive name p rest ih =>
    intro leaf mem
    have tail := Hierarchy.restAt fun j => same (j + 1)
    rcases List.mem_cons.mp mem with rfl | later
    · have here : design.item? (i :: place) = some (.primitive name p) := (entryIn found).trans (same 0).symm
      exact ⟨(pathIn here).symm, name, here⟩
    · exact ih found tail leaf later
  | scope name child interface wires' inner rest ihInner ih =>
    intro leaf mem
    have tail := Hierarchy.restAt fun j => same (j + 1)
    rcases List.mem_append.mp mem with inside | later
    · have here : whole.get? i = some (.scope name child interface wires' inner) := (same 0).symm
      have path := pathIn ((entryIn found).trans here)
      rw [Entry.name] at path
      rw [← path] at inside
      exact ihInner (scopeIn found here) (fun j => by rw [Nat.zero_add]) leaf inside
    · exact ih found tail leaf later

theorem leavesEntry : ∀ leaf ∈ design.leaves, leaf.path = design.path leaf.place ∧
    ∃ name, design.item? leaf.place = some (.primitive name leaf.primitive) :=
  @leafEntry design design.body design.body design.wires design.definition 0 [] rfl fun j => by rw [Nat.zero_add]

theorem leavesSplit {place : Place} {wires : List Wire} {body : Hierarchy}
    (found : design.scope? place = some (wires, body)) : ∃ definition before behind,
      design.leaves = before ++ body.leaves definition (design.path place) place 0 ++ behind := by
  induction place generalizing wires body with
  | nil =>
    cases found
    exact ⟨design.definition, [], [], by rw [List.append_nil]; rfl⟩
  | cons i place ih =>
    unfold scope? at found
    split at found
    · rename_i outerWires outer outerFound
      split at found
      · rename_i name child interface wires' inner here
        cases found
        obtain ⟨definition, before, behind, split⟩ := ih outerFound
        obtain ⟨before', behind', split'⟩ :=
          @Hierarchy.leavesScope _ _ definition 0 _ _ (design.path place) place _ _ _ here
        have path := pathIn ((entryIn outerFound).trans here)
        rw [Nat.zero_add] at split'
        refine ⟨child, before ++ before', behind' ++ behind, ?_⟩
        rw [split, split', path, Entry.name]
        simp only [List.append_assoc]
      · cases found
    · cases found

theorem leafAt {place : Place} {name : String} {primitive : Primitive}
    (here : design.item? place = some (.primitive name primitive)) : ∃ leaf ∈ design.leaves, leaf.place = place := by
  cases place with
  | nil => exact nomatch here
  | cons i place =>
    obtain ⟨wires, body, found, known⟩ := itemScope here
    obtain ⟨definition, before, behind, split⟩ := leavesSplit found
    have own := @Hierarchy.leavesPrimitive body definition 0 i (design.path place) place _ _ known
    rw [Nat.zero_add] at own
    exact ⟨_, split ▸ List.mem_append_left _ (List.mem_append_right _ own), rfl⟩

theorem leafSlot {leaf : Leaf} (mem : leaf ∈ design.leaves) {k : Nat} (inside : k < leaf.primitive.inputs.length) :
    design.slot? (.input leaf.place k) =
      some ((leaf.path, leaf.primitive.inputs[k].1), leaf.primitive.inputs[k].2) := by
  obtain ⟨path, name, entry⟩ := leavesEntry leaf mem
  have here : (design.interfaceAt leaf.place).inputs[k]? =
      some ⟨leaf.primitive.inputs[k].1, leaf.primitive.inputs[k].2⟩ := by
    rw [interfaceIn entry, Entry.interface, Primitive.interface, List.getElem?_map, List.getElem?_eq_getElem inside,
      Option.map_some]
  rw [path]
  exact inputSlot here

structure NodeOf (design : Design) (leaf : Leaf) (node : Node) : Prop where
  path : node.path = leaf.path
  primitive : node.primitive = leaf.primitive
  definition : node.definition = leaf.definition
  inputs : List.Forall₂ (fun k source => design.source design.leaves (.input leaf.place k) = .ok source)
    (List.range leaf.primitive.inputs.length) node.inputs

theorem nodesOf {leaves : List Leaf} {offset : Nat} {nodes : List Node}
    (ok : design.nodes design.leaves offset leaves = .ok nodes) :
    List.Forall₂ design.NodeOf leaves nodes ∧ Stacked offset nodes (offset + stateBytes leaves) := by
  induction leaves generalizing offset nodes with
  | nil =>
    cases ok
    exact ⟨.nil, .nil offset⟩
  | cons leaf rest ih =>
    obtain ⟨inputs, sources, ok⟩ := Result.okBind ok
    obtain ⟨tail, behind, done⟩ := Result.okBind ok
    cases done
    obtain ⟨all, stacked⟩ := ih behind
    have sum : offset + stateBytes (leaf :: rest) = offset + leaf.primitive.stateBytes + stateBytes rest := by
      simp only [stateBytes, List.map_cons, List.sum_cons]
      omega
    rw [sum]
    exact ⟨.cons ⟨rfl, rfl, rfl, Result.okMapM sources⟩ all,
      @Stacked.cons ⟨leaf.path, leaf.primitive, inputs, offset, leaf.definition⟩ tail _ stacked⟩

structure Flat (design : Design) (graph : Graph) : Prop where
  name : graph.name = design.name
  inputs : graph.inputs = design.interface.inputs
  nodes : List.Forall₂ design.NodeOf design.leaves graph.nodes
  stacked : Stacked 0 graph.nodes graph.stateBytes
  stateBytes : graph.stateBytes = Design.stateBytes design.leaves
  outputs : List.Forall₂ (fun (entry : Port × Nat) output => output.1 = entry.1 ∧
    design.source design.leaves (.output [] entry.2) = .ok output.2) design.interface.outputs.zipIdx graph.outputs
  taps : List.Forall₂ (fun slot (tap : Tap) => tap.path = slot.path ∧ tap.pin = slot.pin.name ∧
    design.source design.leaves slot.slot = .ok tap.source) design.tapSlots graph.taps
  tapWidths : List.Forall₂ (fun (slot : TapSlot) (tap : Tap) => tap.width = slot.pin.width) design.tapSlots graph.taps
  order : schedule graph.nodes = .ok graph.order

theorem flattenFlat {graph : Graph} (ok : design.flatten = .ok graph) : design.Flat graph := by
  obtain ⟨nodes, leaves, ok⟩ := Result.okBind ok
  obtain ⟨outputs, ported, ok⟩ := Result.okBind ok
  obtain ⟨taps, tapped, ok⟩ := Result.okBind ok
  obtain ⟨order, scheduled, done⟩ := Result.okBind ok
  cases done
  obtain ⟨all, stacked⟩ := nodesOf leaves
  rw [Nat.zero_add] at stacked
  refine ⟨rfl, rfl, all, stacked, rfl, ?_, ?_, ?_, scheduled⟩
  · refine (Result.okMapM ported).imp fun entry output ok => ?_
    obtain ⟨source, found, done⟩ := Result.okBind ok
    cases done
    exact ⟨rfl, found⟩
  · refine (Result.okMapM tapped).imp fun slot tap ok => ?_
    obtain ⟨source, found, done⟩ := Result.okBind ok
    cases done
    exact ⟨rfl, rfl, found⟩
  · refine (Result.okMapM tapped).imp fun slot tap ok => ?_
    obtain ⟨source, -, done⟩ := Result.okBind ok
    cases done
    rfl

inductive SourceOf (design : Design) : Origin → Source → Prop
  | input (k : Nat) : SourceOf design (.input k) (.input k)
  | node {place : Place} {i : Nat} {leaf : Leaf} (here : design.leaves[i]? = some leaf) (same : leaf.place = place) :
      SourceOf design (.primitive place) (.node i)

theorem findLeaf {place : Place} {name : String} {primitive : Primitive}
    (here : design.item? place = some (.primitive name primitive)) :
    ∃ leaf, design.leaves[design.leaves.findIdx (·.place = place)]? = some leaf ∧ leaf.place = place := by
  obtain ⟨leaf, mem, same⟩ := leafAt here
  have inside : design.leaves.findIdx (·.place = place) < design.leaves.length :=
    List.findIdx_lt_length_of_exists ⟨leaf, mem, decide_eq_true same⟩
  have found := List.getElem?_eq_getElem inside
  have chosen := @List.findIdx_getElem _ (fun leaf => decide (leaf.place = place)) design.leaves inside
  exact ⟨_, found, of_decide_eq_true chosen⟩

namespace Of

variable {circuit : Circuit} {library : Library} {root : Nat} (of : design.Of circuit library root)
include of

theorem sourceJoined {slot : Slot} {source : Source} (ok : design.source design.leaves slot = .ok source)
    {sink : List String × String} {width : Nat} (known : design.slot? slot = some (sink, width)) :
    ∃ origin first, design.origin? origin = some (first, width) ∧ design.SourceOf origin source ∧
      Relation.ReflTransGen (circuit.Joined root) first sink := by
  obtain ⟨origin, found, ok⟩ := Result.okBind ok
  obtain ⟨first, originAt, joined⟩ := of.makesJoined (originMakes found) known
  refine ⟨origin, first, originAt, ?_, joined⟩
  cases origin with
  | input k =>
    cases ok
    exact .input k
  | primitive place =>
    cases ok
    simp only [origin?] at originAt
    split at originAt
    · rename_i name primitive here
      obtain ⟨leaf, at', same⟩ := findLeaf here
      exact .node at' same
    · cases originAt

omit of in
theorem originWidth {graph : Graph} (flat : design.Flat graph) {origin : Origin} {source : Source}
    {first : List String × String} {width : Nat} (known : design.origin? origin = some (first, width))
    (sourced : design.SourceOf origin source) : graph.width? source = some width := by
  cases sourced with
  | input k =>
    obtain ⟨port, here, same⟩ := Option.map_eq_some_iff.mp known
    cases same
    rw [Graph.width?, flat.inputs, here, Option.map_some]
  | @node place i leaf here same =>
    obtain ⟨node, found, stands⟩ := Result.forallAt flat.nodes here
    obtain ⟨-, name, entry⟩ := leavesEntry leaf (List.mem_of_getElem? here)
    rw [same] at entry
    simp only [origin?, entry] at known
    cases known
    rw [Graph.width?, found, Option.map_some, stands.primitive]

theorem sourceWidth {graph : Graph} (flat : design.Flat graph) {slot : Slot} {source : Source}
    (ok : design.source design.leaves slot = .ok source) {sink : List String × String} {width : Nat}
    (known : design.slot? slot = some (sink, width)) : graph.width? source = some width := by
  obtain ⟨origin, first, originAt, sourced, -⟩ := of.sourceJoined ok known
  exact originWidth flat originAt sourced

theorem leafBuilt {leaf : Leaf} (mem : leaf ∈ design.leaves) :
    ∃ path id inst kind args place, circuit.Within root path id ∧ inst ∈ (circuit.definition id).instances ∧
      inst.part = .primitive kind args ∧ library.build kind args place = .ok leaf.primitive ∧
      leaf.path = path ++ [inst.name] := by
  obtain ⟨path, name, entry⟩ := leavesEntry leaf mem
  cases spot : leaf.place with
  | nil =>
    rw [spot] at entry
    exact nomatch entry
  | cons i place =>
    rw [spot] at entry path
    obtain ⟨wires, body, found, known⟩ := itemScope entry
    obtain ⟨id, within, -, expanded⟩ := of.scopeAt found
    obtain ⟨inst, here, expands⟩ := expanded.entryAt known
    rw [pathIn entry, expands.name] at path
    cases expands with
    | primitive part built =>
      exact ⟨_, id, inst, _, _, _, within, List.mem_of_getElem? here, part, built, path⟩

end Of

end Design

namespace Design.Flat

variable {design : Design} {circuit : Circuit} {library : Library} {root : Nat} {graph : Graph}
  (of : design.Of circuit library root) (flat : design.Flat graph)
include of flat

theorem nodeWired {leaf : Leaf} {node : Node} (mem : leaf ∈ design.leaves) (stands : design.NodeOf leaf node) :
    node.inputs.map graph.width? = leaf.primitive.inputs.map (some ·.2) := by
  apply List.ext_getElem
  · have lengths := stands.inputs.length_eq
    simpa using lengths.symm
  · intro k inside inside'
    have bound : k < leaf.primitive.inputs.length := by simpa using inside'
    obtain ⟨source, found, made⟩ := Result.forallAt stands.inputs (List.getElem?_range bound)
    obtain ⟨inside'', same⟩ := List.getElem?_eq_some_iff.mp found
    rw [List.getElem_map, List.getElem_map, same]
    exact of.sourceWidth flat made (leafSlot mem bound)

theorem outputWidth {output : Port × Source} (mem : output ∈ graph.outputs) :
    graph.width? output.2 = some output.1.width ∧ output.1 ∈ design.interface.outputs := by
  obtain ⟨⟨port, k⟩, member, same, made⟩ := Result.forallMem flat.outputs output mem
  have here : design.interface.outputs[k]? = some port := List.mk_mem_zipIdx_iff_getElem?.mp member
  rw [same]
  exact ⟨of.sourceWidth flat made (outputSlot here), List.mem_of_getElem? here⟩

omit of in
theorem outputAt {k : Nat} {port : Port} (here : design.interface.outputs[k]? = some port) :
    ∃ output, graph.outputs[k]? = some output ∧ output.1 = port := by
  have listed : design.interface.outputs.zipIdx[k]? = some (port, k) := by
    rw [List.getElem?_zipIdx, here, Nat.zero_add]
    rfl
  obtain ⟨output, found, same, -⟩ := Result.forallAt flat.outputs listed
  exact ⟨output, found, same⟩

end Design.Flat

theorem Design.Flat.portsNarrow {design : Design} {circuit : Circuit} {library : Library} {root : Nat} {graph : Graph}
    (of : design.Of circuit library root) (flat : design.Flat graph) :
    (∀ port ∈ graph.inputs, 0 < port.width ∧ port.width ≤ 128) ∧
      ∀ output ∈ graph.outputs, 0 < output.1.width ∧ output.1.width ≤ 128 := by
  have ports : ∀ port ∈ design.interface.inputs ++ design.interface.outputs, 0 < port.width ∧ port.width ≤ 128 := by
    rw [of.interface]
    exact of.expanded.closed.ports
  refine ⟨fun port mem => ?_, fun output mem => ?_⟩
  · rw [flat.inputs] at mem
    exact ports port (List.mem_append_left _ mem)
  · exact ports _ (List.mem_append_right _ (flat.outputWidth of mem).2)

theorem Design.Flat.wired {design : Design} {circuit : Circuit} {library : Library} {root : Nat} {graph : Graph}
    (of : design.Of circuit library root) (flat : design.Flat graph) : graph.Wired := by
  obtain ⟨inputs, outputs⟩ := flat.portsNarrow of
  obtain ⟨complete, ordered⟩ := scheduleComplete flat.order
  refine ⟨fun node mem => ?_, inputs, fun output mem => ?_, complete, ordered, flat.stacked⟩
  · obtain ⟨leaf, member, stands⟩ := Result.forallMem flat.nodes node mem
    rw [stands.primitive]
    exact flat.nodeWired of member stands
  · exact ⟨(flat.outputWidth of mem).1, outputs output mem⟩

theorem Design.Flat.soundWellFormed {design : Design} {circuit : Circuit} {library : Library} (sound : library.Sound)
    {root : Nat} {graph : Graph} (of : design.Of circuit library root) (flat : design.Flat graph) : graph.WellFormed := by
  refine ⟨flat.wired of, fun node mem => ?_⟩
  obtain ⟨leaf, member, stands⟩ := Result.forallMem flat.nodes node mem
  obtain ⟨_, _, _, _, _, _, _, _, _, built, _⟩ := of.leafBuilt member
  exact stands.primitive ▸ sound _ _ _ _ built

theorem Design.Flat.wellFormed {design : Design} {circuit : Circuit} {root : Nat} {graph : Graph}
    (of : design.Of circuit .builtin root) (flat : design.Flat graph) : graph.WellFormed :=
  flat.soundWellFormed Library.builtinSound of

theorem Circuit.flattenOf {circuit : Circuit} {library : Library} {id : Nat} {graph : Graph}
    (ok : circuit.flatten library id = .ok graph) :
    ∃ design, Design.Of design circuit library id ∧ design.Flat graph := by
  obtain ⟨_, -, ok⟩ := Result.okBind ok
  obtain ⟨design, expanded, flattened⟩ := Result.okBind ok
  exact ⟨design, Design.ofCircuitOf expanded, Design.flattenFlat flattened⟩

end CircuitSim
