import CircuitSim.Circuit.Check
import CircuitSim.Proofs.Flatten

/-! In a circuit that has been checked, names lead to one thing each: an instance path to one place of a design,
and a pin at an instance path to one slot. -/
namespace CircuitSim

structure Circuit.Named (circuit : Circuit) : Prop where
  ports : ∀ id, (((circuit.definition id).inputs ++ (circuit.definition id).outputs).map (·.name)).Nodup
  instances : ∀ id, ((circuit.definition id).instances.map (·.name)).Nodup

namespace Circuit

theorem namesDistinct {name : String} {seen names : List String} (fresh : name ∉ seen)
    (rest : names.Nodup ∧ ∀ other ∈ names, other ∉ name :: seen) :
    (name :: names).Nodup ∧ ∀ other ∈ name :: names, other ∉ seen := by
  obtain ⟨distinct, apart⟩ := rest
  refine ⟨List.nodup_cons.mpr ⟨fun mem => apart name mem List.mem_cons_self, distinct⟩, fun other mem => ?_⟩
  rcases List.mem_cons.mp mem with rfl | later
  · exact fresh
  · exact fun before => apart other later (List.mem_cons_of_mem name before)

theorem portsDistinct {definition : Definition} {seen : List String} {ports : List Port}
    (ok : checkPorts definition seen ports = .ok ()) :
    (ports.map (·.name)).Nodup ∧ ∀ name ∈ ports.map (·.name), name ∉ seen := by
  induction ports generalizing seen with
  | nil => exact ⟨List.nodup_nil, nofun⟩
  | cons port rest ih =>
    unfold checkPorts at ok
    split at ok
    · exact nomatch ok
    · rename_i fresh
      split at ok
      · exact nomatch ok
      · exact namesDistinct fresh (ih ok)

structure Accepted (circuit : Circuit) (definition : Definition) (seen : List String) (inst : Instance)
    (rest : List Instance) : Prop where
  usable : usableName inst.name = true
  fresh : inst.name ∉ seen
  known : ∀ name, inst.part = .definition name → ∃ child, circuit.lookup name = .ok child
  behind : circuit.checkInstances definition (inst.name :: seen) rest = .ok ()

theorem instancesAccepted {circuit : Circuit} {definition : Definition} {seen : List String} {inst : Instance}
    {rest : List Instance} (ok : circuit.checkInstances definition seen (inst :: rest) = .ok ()) :
    circuit.Accepted definition seen inst rest := by
  unfold checkInstances at ok
  split at ok
  · cases ok
  rename_i usable
  split at ok
  · cases ok
  rename_i fresh
  rw [Bool.not_eq_true, Bool.not_eq_false'] at usable
  cases part : inst.part with
  | primitive kind args =>
    rw [part] at ok
    refine ⟨usable, fresh, fun name other => ?_, ok⟩
    cases part.symm.trans other
  | definition name =>
    rw [part] at ok
    obtain ⟨_, looked, behind⟩ := Result.okBind ok
    obtain ⟨child, found, -⟩ := Result.okMap looked
    refine ⟨usable, fresh, fun other same => ⟨child, ?_⟩, behind⟩
    rw [← Part.definition.inj (part.symm.trans same)]
    exact found

theorem instancesDistinct {circuit : Circuit} {definition : Definition} {seen : List String}
    {instances : List Instance} (ok : circuit.checkInstances definition seen instances = .ok ()) :
    (instances.map (·.name)).Nodup ∧ ∀ name ∈ instances.map (·.name), name ∉ seen := by
  induction instances generalizing seen with
  | nil => exact ⟨List.nodup_nil, nofun⟩
  | cons inst rest ih =>
    have accepted := instancesAccepted ok
    exact namesDistinct accepted.fresh (ih accepted.behind)

theorem instancesSound {circuit : Circuit} {definition : Definition} {seen : List String} {instances : List Instance}
    (ok : circuit.checkInstances definition seen instances = .ok ()) : ∀ inst ∈ instances,
      usableName inst.name = true ∧ ∀ name, inst.part = .definition name → ∃ child, circuit.lookup name = .ok child := by
  induction instances generalizing seen with
  | nil => exact nofun
  | cons inst rest ih =>
    have accepted := instancesAccepted ok
    exact List.forall_mem_cons.mpr ⟨⟨accepted.usable, accepted.known⟩, ih accepted.behind⟩

theorem definitionListed (circuit : Circuit) (id : Nat) :
    circuit.definition id ∈ circuit.definitions ∨ circuit.definition id = default := by
  rw [definition, List.getD_eq_getElem?_getD]
  cases here : circuit.definitions[id]? with
  | none => exact .inr rfl
  | some found => exact .inl (List.mem_of_getElem? here)

theorem validateNamed {circuit : Circuit} (ok : circuit.validate = .ok ()) : circuit.Named := by
  have each : ∀ definition ∈ circuit.definitions,
      ((definition.inputs ++ definition.outputs).map (·.name)).Nodup ∧ (definition.instances.map (·.name)).Nodup := by
    intro definition mem
    obtain ⟨_, ports, instances⟩ := Result.okBind (Result.okForM ok definition mem)
    exact ⟨(portsDistinct ports).1, (instancesDistinct instances).1⟩
  refine ⟨fun id => ?_, fun id => ?_⟩
  · rcases circuit.definitionListed id with mem | empty
    · exact (each _ mem).1
    · rw [empty]
      exact List.nodup_nil
  · rcases circuit.definitionListed id with mem | empty
    · exact (each _ mem).2
    · rw [empty]
      exact List.nodup_nil

theorem validateInstances {circuit : Circuit} (ok : circuit.validate = .ok ()) (id : Nat) :
    ∀ inst ∈ (circuit.definition id).instances,
      usableName inst.name = true ∧ ∀ name, inst.part = .definition name → ∃ child, circuit.lookup name = .ok child := by
  rcases circuit.definitionListed id with mem | empty
  · obtain ⟨_, -, instances⟩ := Result.okBind (Result.okForM ok _ mem)
    exact instancesSound instances
  · rw [empty]
    exact nofun

end Circuit

theorem Primitive.portsNamed (primitive : Primitive) :
    ((primitive.interface.inputs ++ primitive.interface.outputs).map (·.name)).Nodup := by
  cases primitive with
  | register | const | not | compare | mux | mem =>
    simp [interface, inputs, output]
  | binary op =>
    cases op with
    | add | sub | mul | and | or | xor => simp [interface, inputs, output]

namespace Design

def Present (design : Design) (place : Place) : Prop := place = [] ∨ ∃ entry, design.item? place = some entry

section Present

variable {design : Design} {place : Place} {i : Nat}

theorem presentScope {wires : List Wire} {body : Hierarchy} (found : design.scope? place = some (wires, body)) :
    design.Present place := by
  cases place with
  | nil => exact .inl rfl
  | cons i place =>
    unfold scope? at found
    split at found
    · rename_i outerWires outer outerFound
      split at found
      · rename_i here
        exact .inr ⟨_, (entryIn outerFound).trans here⟩
      · cases found
    · cases found

theorem presentPorts (shown : design.interfaceAt place ≠ default) : design.Present place := by
  cases place with
  | nil => exact .inl rfl
  | cons i place =>
    cases here : design.item? (i :: place) with
    | none =>
      rw [interfaceAt, here] at shown
      exact absurd rfl shown
    | some entry => exact .inr ⟨entry, here⟩

def slotPlace : Slot → Place
  | .input place _ | .output place _ => place

def slotNumber (design : Design) : Slot → Nat
  | .input _ k => k
  | .output place k => (design.interfaceAt place).inputs.length + k

theorem slotPort {slot : Slot} {pin : List String × String} {width : Nat}
    (known : design.slot? slot = some (pin, width)) :
    design.Present (slotPlace slot) ∧ design.path (slotPlace slot) = pin.1 ∧
      ((design.interfaceAt (slotPlace slot)).inputs ++ (design.interfaceAt (slotPlace slot)).outputs)[
        design.slotNumber slot]? = some ⟨pin.2, width⟩ := by
  cases slot with
  | input place k =>
    obtain ⟨port, here, same⟩ := Option.map_eq_some_iff.mp known
    cases same
    obtain ⟨inside, -⟩ := List.getElem?_eq_some_iff.mp here
    have shown : design.interfaceAt place ≠ default := by
      intro none
      rw [none] at here
      exact nomatch here
    exact ⟨presentPorts shown, rfl, (List.getElem?_append_left inside).trans here⟩
  | output place k =>
    obtain ⟨port, here, same⟩ := Option.map_eq_some_iff.mp known
    cases same
    have shown : design.interfaceAt place ≠ default := by
      intro none
      rw [none] at here
      exact nomatch here
    refine ⟨presentPorts shown, rfl, ?_⟩
    rw [slotNumber, slotPlace, List.getElem?_append_right (Nat.le_add_right _ k), Nat.add_sub_cancel_left]
    exact here

theorem slotNumberInj {slot other : Slot} {pin : (List String × String) × Nat} {pin' : (List String × String) × Nat}
    (known : design.slot? slot = some pin) (known' : design.slot? other = some pin')
    (place : slotPlace slot = slotPlace other) (number : design.slotNumber slot = design.slotNumber other) :
    slot = other := by
  have bound : ∀ {place : Place} {k : Nat} {pin : (List String × String) × Nat},
      design.slot? (.input place k) = some pin → k < (design.interfaceAt place).inputs.length := by
    intro place k pin known
    obtain ⟨port, here, -⟩ := Option.map_eq_some_iff.mp known
    exact (List.getElem?_eq_some_iff.mp here).1
  cases slot with
  | input p j =>
    have first := bound known
    cases other with
    | input q k =>
      obtain rfl : p = q := place
      obtain rfl : j = k := number
      rfl
    | output q k =>
      obtain rfl : p = q := place
      simp only [slotNumber] at number
      omega
  | output p j =>
    cases other with
    | input q k =>
      have second := bound known'
      obtain rfl : p = q := place
      simp only [slotNumber] at number
      omega
    | output q k =>
      obtain rfl : p = q := place
      rw [Nat.add_left_cancel number]

end Present

namespace Of

variable {design : Design} {circuit : Circuit} {library : Library} {root : Nat}
  (of : design.Of circuit library root) (named : circuit.Named)
include of named

theorem pathInj {place other : Place} (present : design.Present place) (present' : design.Present other)
    (same : design.path place = design.path other) : place = other := by
  have entryPath : ∀ i place, design.Present (i :: place) → ∃ wires body entry,
      design.scope? place = some (wires, body) ∧ body.get? i = some entry ∧
        design.path (i :: place) = design.path place ++ [entry.name] := by
    intro i place present
    rcases present with none | ⟨entry, here⟩
    · exact nomatch none
    · obtain ⟨wires, body, found, at'⟩ := itemScope here
      exact ⟨wires, body, entry, found, at', pathIn here⟩
  induction place generalizing other with
  | nil =>
    cases other with
    | nil => rfl
    | cons j other =>
      obtain ⟨_, _, entry, -, -, path⟩ := entryPath j other present'
      rw [path, Design.path] at same
      exact absurd same.symm (by simp)
  | cons i place ih =>
    obtain ⟨wires, body, entry, found, here, path⟩ := entryPath i place present
    cases other with
    | nil =>
      rw [path, Design.path] at same
      exact absurd same (by simp)
    | cons j other =>
      obtain ⟨wires', body', entry', found', here', path'⟩ := entryPath j other present'
      rw [path, path'] at same
      obtain ⟨outer, last⟩ := List.append_inj' same rfl
      obtain rfl := ih (presentScope found) (presentScope found') outer
      obtain ⟨-, rfl⟩ := Prod.mk.inj (Option.some.inj (found.symm.trans found'))
      obtain ⟨id, -, -, expanded⟩ := of.scopeAt found
      obtain ⟨inst, member, expands⟩ := expanded.entryAt here
      obtain ⟨inst', member', expands'⟩ := expanded.entryAt here'
      have names : inst.name = inst'.name :=
        expands.name.symm.trans ((List.singleton_inj.mp last).trans expands'.name)
      rw [Result.indexInj (named.instances id) member member' names]

theorem portsNamed {place : Place} (present : design.Present place) :
    (((design.interfaceAt place).inputs ++ (design.interfaceAt place).outputs).map (·.name)).Nodup := by
  cases place with
  | nil =>
    rw [interfaceAt, of.interface]
    exact named.ports root
  | cons i place =>
    rcases present with none | ⟨entry, here⟩
    · cases none
    · obtain ⟨wires, body, found, at'⟩ := itemScope here
      obtain ⟨id, -, -, expanded⟩ := of.scopeAt found
      obtain ⟨inst, -, expands⟩ := expanded.entryAt at'
      rw [interfaceIn here]
      cases expands with
      | @primitive _ _ _ primitive => exact primitive.portsNamed
      | @scope _ child => exact named.ports child

theorem slotInj {slot other : Slot} {pin : List String × String} {width width' : Nat}
    (known : design.slot? slot = some (pin, width)) (known' : design.slot? other = some (pin, width')) :
    slot = other := by
  obtain ⟨present, path, here⟩ := slotPort known
  obtain ⟨present', path', here'⟩ := slotPort known'
  have place := of.pathInj named present present' (path.trans path'.symm)
  rw [← place] at here'
  exact slotNumberInj known known' place (Result.indexInj (of.portsNamed named present) here here' rfl)

end Of

end Design

end CircuitSim
