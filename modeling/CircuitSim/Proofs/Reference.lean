import CircuitSim.Proofs.Inline

/-! What a hierarchy means before it is flattened: a machine with words of state for the primitives at their instance
paths, and numbers for the pins at all of them. -/
namespace CircuitSim

inductive Circuit.PrimitiveAt (circuit : Circuit) (root : Nat) : List String → Primitive → Prop
  | inside {path : List String} {id : Nat} {inst : Instance} {kind place : String} {args : Args} {primitive : Primitive}
      (outer : circuit.Within root path id) (mem : inst ∈ (circuit.definition id).instances)
      (part : inst.part = .primitive kind args) (built : Library.builtin.build kind args place = .ok primitive) :
      PrimitiveAt circuit root (path ++ [inst.name]) primitive

/- The pins at all instance paths: the ports of the definitions, and the pins of the primitives. -/
inductive Circuit.PinAt (circuit : Circuit) (root : Nat) : List String × String → Prop
  | port {path : List String} {id : Nat} {port : Port} (within : circuit.Within root path id)
      (mem : port ∈ (circuit.definition id).inputs ++ (circuit.definition id).outputs) :
      PinAt circuit root (path, port.name)
  | pin {path : List String} {primitive : Primitive} {pin : Port} (within : circuit.PrimitiveAt root path primitive)
      (mem : pin ∈ primitive.interface.inputs ++ primitive.interface.outputs) : PinAt circuit root (path, pin.name)

def Primitive.taken (primitive : Primitive) (pins : List String × String → Nat) (path : List String) (k : Nat) : Nat :=
  pins (path, (primitive.inputs.getD k default).1)

def Primitive.next (primitive : Primitive) (input word : Nat → Nat) (k : Nat) : Nat :=
  match primitive with
  | register _ => input 0
  | mem _ depth => if input 2 = 1 ∧ k = input 0 % depth then input 1 else word k
  | _ => word k

/- Numbers at the pins that staged inputs and words of state allow. A port of an instance is one pin, inside and
outside. -/
structure Circuit.Assigned (circuit : Circuit) (root : Nat) (staged : String → Nat)
    (words : List String → Nat → Nat) (pins : List String × String → Nat) : Prop where
  inputs : ∀ port ∈ (circuit.definition root).inputs, pins ([], port.name) = staged port.name
  nets : ∀ source sink, circuit.Joined root source sink → pins sink = pins source
  primitives : ∀ path primitive, circuit.PrimitiveAt root path primitive →
    pins (path, primitive.output.1) = primitive.result (primitive.taken pins path) (words path)

def Circuit.Advanced (circuit : Circuit) (root : Nat) (pins : List String × String → Nat)
    (words words' : List String → Nat → Nat) : Prop :=
  ∀ path primitive, circuit.PrimitiveAt root path primitive → ∀ k < primitive.cells,
    words' path k = primitive.next (primitive.taken pins path) (words path) k

/- The numbers that are staged and those that are shown, by the names of ports, and the words of state. -/
structure Machine where
  staged : String → Nat
  words : List String → Nat → Nat
  shown : String → Nat

namespace Machine

def start : Machine := ⟨fun _ => 0, fun _ _ => 0, fun _ => 0⟩

def stage (machine : Machine) (ports : List Port) (name : String) (value : Nat) : Machine :=
  if ∃ port ∈ ports, port.name = name ∧ value < 2 ^ port.width then
    { machine with staged := fun other => if other = name then value else machine.staged other }
  else machine

end Machine

inductive Call
  | set (name : String) (value : Nat)
  | setWord (name : String) (value : UInt64)
  | compute
  | update
  deriving DecidableEq, Repr

inductive Circuit.Steps (circuit : Circuit) (root : Nat) : Machine → Call → Machine → Prop
  | set {machine : Machine} (name : String) (value : Nat) :
      Steps circuit root machine (.set name value) (machine.stage (circuit.definition root).inputs name value)
  | setWord {machine : Machine} (name : String) (value : UInt64) :
      Steps circuit root machine (.setWord name value)
        (machine.stage (circuit.definition root).inputs name value.toNat)
  | compute {machine : Machine} {pins : List String × String → Nat}
      (assigned : circuit.Assigned root machine.staged machine.words pins) :
      Steps circuit root machine .compute { machine with shown := fun name => pins ([], name) }
  | update {machine : Machine} {pins : List String × String → Nat} {words : List String → Nat → Nat}
      (assigned : circuit.Assigned root machine.staged machine.words pins)
      (advanced : circuit.Advanced root pins machine.words words) :
      Steps circuit root machine .update { machine with words := words }

inductive Circuit.Reaches (circuit : Circuit) (root : Nat) : Machine → List Call → Machine → Prop
  | nil (machine : Machine) : Reaches circuit root machine [] machine
  | cons {first next last : Machine} {call : Call} {calls : List Call} (step : circuit.Steps root first call next)
      (rest : circuit.Reaches root next calls last) : Reaches circuit root first (call :: calls) last

namespace Design.Of

variable {design : Design} {circuit : Circuit} {root : Nat} (of : design.Of circuit .builtin root)
include of

theorem primitiveItem {path : List String} {primitive : Primitive} (within : circuit.PrimitiveAt root path primitive) :
    ∃ place name, design.item? place = some (.primitive name primitive) ∧ design.path place = path := by
  cases within with
  | @inside path id inst kind at' args _ outer mem part built =>
    obtain ⟨place, wires, body, found, same, -, expanded⟩ := of.withinPlace outer
    obtain ⟨i, here⟩ := List.mem_iff_getElem?.mp mem
    obtain ⟨entry, known, expands⟩ := expanded.instanceAt here
    have item := (entryIn found).trans known
    have named := pathIn item
    rw [expands.name, same] at named
    cases expands with
    | scope part' => exact nomatch part.symm.trans part'
    | @primitive kind' _ args' primitive' part' built' =>
      obtain ⟨rfl, rfl⟩ := Part.primitive.inj (part.symm.trans part')
      obtain rfl := Primitive.buildSame built built'
      exact ⟨i :: place, inst.name, item, named⟩

theorem primitiveSame (named : circuit.Named) {path : List String} {primitive other : Primitive}
    (within : circuit.PrimitiveAt root path primitive) (within' : circuit.PrimitiveAt root path other) :
    primitive = other := by
  obtain ⟨place, name, item, same⟩ := of.primitiveItem within
  obtain ⟨place', name', item', same'⟩ := of.primitiveItem within'
  have here : place = place' := of.pathInj named (.inr ⟨_, item⟩) (.inr ⟨_, item'⟩) (same.trans same'.symm)
  rw [here, item'] at item
  exact (Entry.primitive.inj (Option.some.inj item)).2.symm

variable {graph : Graph} (flat : design.Flat graph)
include flat

theorem nodePrimitive {node : Node} (mem : node ∈ graph.nodes) : circuit.PrimitiveAt root node.path node.primitive := by
  obtain ⟨leaf, member, stands⟩ := Result.forallMem flat.nodes node mem
  obtain ⟨path, id, inst, kind, args, place, within, known, part, built, same⟩ := of.leafBuilt member
  rw [stands.path, stands.primitive, same]
  exact .inside within known part built

theorem primitiveNode {path : List String} {primitive : Primitive} (within : circuit.PrimitiveAt root path primitive) :
    ∃ leaf ∈ design.leaves, ∃ (i : Nat) (node : Node), graph.nodes[i]? = some node ∧ design.NodeOf leaf node ∧
      leaf.path = path ∧ leaf.primitive = primitive := by
  obtain ⟨place, name, item, same⟩ := of.primitiveItem within
  obtain ⟨leaf, here, rfl⟩ := findLeaf item
  obtain ⟨node, found, stands⟩ := Result.forallAt flat.nodes here
  have mem := List.mem_of_getElem? here
  obtain ⟨path', name', item'⟩ := leavesEntry leaf mem
  rw [item] at item'
  exact ⟨leaf, mem, _, node, found, stands, path'.trans same, (Entry.primitive.inj (Option.some.inj item')).2.symm⟩

end Design.Of

end CircuitSim
