import CircuitSim.Proofs.Pins

/-! A definition inside another. The instance has the wires and instances that the definition has on its own, so
its signals come from the same places, unless they come in through a port: then they go on outside. -/
namespace CircuitSim

namespace Hierarchy

variable {circuit : Circuit}

theorem connectSame {path path' : List String} {definition : Definition} {locals : List (String × Interface)}
    {net : Net} {terminal : Terminal} {width : Nat} {pins : List Pin} {before wires wires' : List Wire}
    (ok : connect path definition locals net terminal width pins before = .ok wires)
    (ok' : connect path' definition locals net terminal width pins before = .ok wires') : wires = wires' := by
  induction pins generalizing before with
  | nil => exact Except.ok.inj (ok.symm.trans ok')
  | cons pin rest ih =>
    obtain ⟨⟨target, targetWidth⟩, found, ok⟩ := Result.okBind ok
    obtain ⟨again, found', ok'⟩ := Result.okBind ok'
    obtain rfl : (target, targetWidth) = again := Except.ok.inj (found.symm.trans found')
    simp only at ok ok'
    split at ok
    · exact nomatch ok
    · rename_i equal
      rw [if_neg equal] at ok'
      split at ok
      · exact nomatch ok
      · rename_i free
        rw [if_neg free] at ok'
        exact ih ok ok'

theorem connectAllSame {path path' : List String} {definition : Definition} {locals : List (String × Interface)}
    {nets : List Net} {before wires wires' : List Wire}
    (ok : connectAll path definition locals nets before = .ok wires)
    (ok' : connectAll path' definition locals nets before = .ok wires') : wires = wires' := by
  induction nets generalizing before with
  | nil => exact Except.ok.inj (ok.symm.trans ok')
  | cons net rest ih =>
    obtain ⟨⟨terminal, width⟩, found, ok⟩ := Result.okBind ok
    obtain ⟨again, found', ok'⟩ := Result.okBind ok'
    obtain rfl : (terminal, width) = again := Except.ok.inj (found.symm.trans found')
    obtain ⟨between, connected, ok⟩ := Result.okBind ok
    obtain ⟨between', connected', ok'⟩ := Result.okBind ok'
    obtain rfl := connectSame connected connected'
    exact ih ok ok'

section Same

variable {library : Library} (placeless : library.Placeless)
include placeless

theorem expandInstancesSame {depth depth' : Nat} {path path' : List String} {instances : List Instance}
    {body body' : Hierarchy}
    (inner : ∀ {at' at'' : List String} {id : Nat} {made made' : List Wire × Hierarchy},
      expand circuit library depth at' id = .ok made → expand circuit library depth' at'' id = .ok made' → made = made')
    (ok : expandInstances circuit library (expand circuit library depth) path instances = .ok body)
    (ok' : expandInstances circuit library (expand circuit library depth') path' instances = .ok body') :
    body = body' := by
  induction instances generalizing body body' with
  | nil => exact Except.ok.inj (ok.symm.trans ok')
  | cons inst rest ih =>
    cases expandInstancesFirst ok with
    | primitive part built behind =>
      cases expandInstancesFirst ok' with
      | primitive part' built' behind' =>
        obtain ⟨rfl, rfl⟩ := Part.primitive.inj (part.symm.trans part')
        rw [placeless _ _ _ _ _ _ built built', ih behind behind']
      | scope part' => exact nomatch part.symm.trans part'
    | scope part found stepped behind =>
      cases expandInstancesFirst ok' with
      | primitive part' => exact nomatch part.symm.trans part'
      | scope part' found' stepped' behind' =>
        obtain rfl := Part.definition.inj (part.symm.trans part')
        obtain rfl := Except.ok.inj (found.symm.trans found')
        obtain ⟨rfl, rfl⟩ := Prod.mk.inj (inner stepped stepped')
        rw [ih behind behind']

theorem expandSame {depth depth' : Nat} {path path' : List String} {id : Nat} {made made' : List Wire × Hierarchy}
    (ok : expand circuit library depth path id = .ok made)
    (ok' : expand circuit library depth' path' id = .ok made') : made = made' := by
  induction depth generalizing depth' path path' id made made' with
  | zero => exact nomatch ok
  | succ depth ih =>
    cases depth' with
    | zero => exact nomatch ok'
    | succ depth' =>
      obtain ⟨_, -, ok⟩ := Result.okBind ok
      obtain ⟨body, instances, ok⟩ := Result.okBind ok
      obtain ⟨wires, connected, done⟩ := Result.okBind ok
      obtain ⟨_, -, ok'⟩ := Result.okBind ok'
      obtain ⟨body', instances', ok'⟩ := Result.okBind ok'
      obtain ⟨wires', connected', done'⟩ := Result.okBind ok'
      obtain rfl := expandInstancesSame placeless ih instances instances'
      obtain rfl := connectAllSame connected connected'
      cases done
      cases done'
      rfl

end Same

end Hierarchy

structure Design.Holds (outer inner : Design) (place : Place) : Prop where
  scope : outer.scope? place = some (inner.wires, inner.body)
  interface : outer.interfaceAt place = inner.interface

theorem Design.Of.holds {circuit : Circuit} {library : Library} (placeless : library.Placeless) {root id : Nat}
    {outer inner : Design} (of : outer.Of circuit library root) (of' : inner.Of circuit library id) {path : List String}
    (within : circuit.Within root path id) : ∃ place, outer.path place = path ∧ outer.Holds inner place := by
  obtain ⟨place, wires, body, scope, same, interface, depth, at', ok⟩ := of.withinPlace within
  obtain ⟨depth', at'', ok'⟩ := of'.expanded
  cases Hierarchy.expandSame placeless ok ok'
  exact ⟨place, same, scope, interface.trans of'.interface.symm⟩

def Slot.under (place : Place) : Slot → Slot
  | .input inner k => .input (inner ++ place) k
  | .output inner k => .output (inner ++ place) k

def Driver.under (place : Place) : Driver Slot → Driver Slot
  | .undriven => .undriven
  | .origin (.input k) => .origin (.input k)
  | .origin (.primitive inner) => .origin (.primitive (inner ++ place))
  | .alias slot => .alias (slot.under place)

namespace Design.Holds

variable {outer inner : Design} {place : Place} (holds : outer.Holds inner place)
include holds

theorem scopeUnder (under : Place) : outer.scope? (under ++ place) = inner.scope? under := by
  induction under with
  | nil => exact holds.scope
  | cons i under ih => rw [List.cons_append, scope?, ih, scope?]

theorem itemUnder (i : Nat) (under : Place) : outer.item? (i :: under ++ place) = inner.item? (i :: under) := by
  rw [List.cons_append, item?, item?, holds.scopeUnder]

theorem itemInside {under : Place} {entry : Entry} (item : inner.item? under = some entry) :
    outer.item? (under ++ place) = some entry := by
  cases under with
  | nil => exact nomatch item
  | cons i under => exact (holds.itemUnder i under).trans item

theorem pathUnder (under : Place) : outer.path (under ++ place) = outer.path place ++ inner.path under := by
  induction under with
  | nil => exact (List.append_nil _).symm
  | cons i under ih =>
    have item := holds.itemUnder i under
    rw [List.cons_append] at item ⊢
    rw [path, path, ih, item, List.append_assoc]

theorem interfaceUnder (under : Place) : outer.interfaceAt (under ++ place) = inner.interfaceAt under := by
  cases under with
  | nil => exact holds.interface
  | cons i under =>
    have item := holds.itemUnder i under
    rw [List.cons_append] at item ⊢
    rw [interfaceAt, interfaceAt, item]

theorem slotUnder (slot : Slot) : outer.slot? (slot.under place) =
    (inner.slot? slot).map fun (pin, width) => ((outer.path place ++ pin.1, pin.2), width) := by
  cases slot with
  | input under k | output under k =>
    simp only [Slot.under, slot?, holds.interfaceUnder, holds.pathUnder, Option.map_map]
    rfl

theorem driverInUnder (under : Place) (terminal : Terminal) :
    outer.driverIn (under ++ place) terminal = (inner.driverIn under terminal).under place := by
  unfold driverIn
  rw [holds.scopeUnder]
  cases inner.scope? under with
  | none => rfl
  | some scope =>
    obtain ⟨wires, body⟩ := scope
    cases hit : wires.find? (·.sink = terminal) with
    | none =>
      simp only [hit]
      rfl
    | some wire =>
      cases spot : wire.source with
      | port k =>
        simp only [hit, spot]
        rfl
      | pin i k =>
        cases here : body.get? i with
        | none =>
          simp only [hit, spot, here]
          rfl
        | some entry =>
          cases entry with
          | primitive | scope =>
            simp only [hit, spot, here]
            rfl

theorem driverUnder {slot : Slot} (own : ∀ k, slot ≠ .input [] k) :
    outer.driver (slot.under place) = (inner.driver slot).under place := by
  cases slot with
  | output under k => exact holds.driverInUnder under (.port k)
  | input under k =>
    cases under with
    | nil => exact absurd rfl (own k)
    | cons i under => exact holds.driverInUnder under (.pin i k)

end Design.Holds

inductive Design.Comes (outer : Design) (place : Place) : Origin → Origin → Prop
  | primitive (inner : Place) : Comes outer place (.primitive inner) (.primitive (inner ++ place))
  | input {k : Nat} {origin : Origin} (made : outer.Makes (.input place k) origin) : Comes outer place (.input k) origin

namespace Design.Holds

variable {outer inner : Design} {place : Place} (holds : outer.Holds inner place)
include holds

theorem makesUnder {slot : Slot} {origin origin' : Origin} (made : inner.Makes slot origin)
    (comes : outer.Comes place origin origin') : outer.Makes (slot.under place) origin' := by
  induction made with
  | @origin slot origin drives =>
    rcases driverOrigin drives with ⟨k, rfl, rfl⟩ | ⟨under, name, primitive, rfl, -⟩
    · cases comes with
      | input made => exact made
    · have own : ∀ k, slot ≠ .input [] k := by
        rintro k rfl
        exact nomatch drives
      have same := holds.driverUnder own
      rw [drives] at same
      cases comes with
      | primitive => exact .origin same
  | @along slot next origin drives _ ih =>
    have own : ∀ k, slot ≠ .input [] k := by
      rintro k rfl
      exact nomatch drives
    have same := holds.driverUnder own
    rw [drives] at same
    exact .along same (ih comes)
  | @output under name primitive here =>
    cases comes with
    | primitive => exact .output (holds.itemInside here)

theorem makesInside {slot : Slot} {origin' : Origin} (made : outer.Makes (slot.under place) origin') :
    ∃ origin, inner.Makes slot origin ∧ outer.Comes place origin origin' := by
  generalize known : slot.under place = whole at made
  induction made generalizing slot with
  | @origin whole origin' drives =>
    subst known
    -- at an input of the definition the walk leaves the place
    by_cases own : ∃ k, slot = .input [] k
    · obtain ⟨k, rfl⟩ := own
      exact ⟨.input k, .origin rfl, .input (.origin drives)⟩
    · have same := holds.driverUnder fun k same => own ⟨k, same⟩
      rw [drives] at same
      cases inside : inner.driver slot with
      | undriven | «alias» =>
        rw [inside] at same
        exact nomatch same
      | origin origin =>
        rw [inside] at same
        rcases driverOrigin inside with ⟨k, input, -⟩ | ⟨under, name, primitive, rfl, -⟩
        · exact absurd ⟨k, input⟩ own
        · cases same
          exact ⟨_, .origin inside, .primitive under⟩
  | @along whole next origin' drives made ih =>
    subst known
    by_cases own : ∃ k, slot = .input [] k
    · obtain ⟨k, rfl⟩ := own
      exact ⟨.input k, .origin rfl, .input (.along drives made)⟩
    · have same := holds.driverUnder fun k same => own ⟨k, same⟩
      rw [drives] at same
      cases inside : inner.driver slot with
      | undriven =>
        rw [inside] at same
        exact nomatch same
      | origin origin =>
        rw [inside] at same
        cases origin with
        | input | primitive => exact nomatch same
      | «alias» next' =>
        rw [inside] at same
        obtain ⟨origin, made', comes⟩ := ih (Driver.alias.inj same).symm
        exact ⟨origin, .along inside made', comes⟩
  | @output whole name primitive here =>
    cases slot with
    | input => exact nomatch known
    | output under k =>
      obtain ⟨rfl, rfl⟩ := Slot.output.inj known
      cases under with
      | nil =>
        have none := scopeNone here
        rw [List.nil_append, holds.scope] at none
        exact nomatch none
      | cons i under => exact ⟨_, .output ((holds.itemUnder i under).symm.trans here), .primitive _⟩

end Design.Holds

namespace Hierarchy

structure LeafUnder (above : List String) (outer : Place) (leaf whole : Leaf) : Prop where
  path : whole.path = above ++ leaf.path
  place : whole.place = leaf.place ++ outer
  primitive : whole.primitive = leaf.primitive

theorem leavesUnder (body : Hierarchy) (above : List String) (outer : Place) (definition definition' i : Nat)
    (path : List String) (place : Place) : List.Forall₂ (LeafUnder above outer) (body.leaves definition path place i)
      (body.leaves definition' (above ++ path) (place ++ outer) i) := by
  induction body generalizing definition definition' i path place with
  | empty => exact .nil
  | primitive name p rest ih =>
    exact .cons ⟨List.append_assoc _ _ _, rfl, rfl⟩ (ih definition definition' (i + 1) path place)
  | scope name child interface wires inner rest ihInner ih =>
    have inside := ihInner child child 0 (path ++ [name]) (i :: place)
    rw [← List.append_assoc] at inside
    exact List.rel_append inside (ih definition definition' (i + 1) path place)

end Hierarchy

namespace Design.Holds

variable {outer inner : Design} {place : Place} (holds : outer.Holds inner place)
include holds

theorem leavesInside : ∃ before middle behind, outer.leaves = before ++ middle ++ behind ∧
    List.Forall₂ (Hierarchy.LeafUnder (outer.path place) place) inner.leaves middle := by
  obtain ⟨definition, before, behind, split⟩ := leavesSplit holds.scope
  have all := inner.body.leavesUnder (outer.path place) place inner.definition definition 0 [] []
  rw [List.append_nil, List.nil_append] at all
  exact ⟨before, _, behind, split, all⟩

variable {circuit : Circuit} {library : Library} {root : Nat} (of : outer.Of circuit library root)
  (named : circuit.Named)
include of named

theorem placeInside {under : Place} (present : outer.Present under) {path : List String}
    (below : outer.path under = outer.path place ++ path) : ∃ rest, under = rest ++ place := by
  have present' : outer.Present place := presentScope holds.scope
  induction under generalizing path with
  | nil =>
    have none : outer.path place = [] := (List.append_eq_nil_iff.mp below.symm).1
    exact ⟨[], of.pathInj named (.inl rfl) present' none.symm⟩
  | cons i under ih =>
    rcases List.eq_nil_or_concat path with rfl | ⟨path, name, rfl⟩
    · rw [List.append_nil] at below
      exact ⟨[], of.pathInj named present present' below⟩
    · rcases present with none | ⟨entry, here⟩
      · exact nomatch none
      · obtain ⟨wires, body, found, -⟩ := itemScope here
        rw [pathIn here, List.concat_eq_append, ← List.append_assoc] at below
        obtain ⟨rest, same⟩ := ih (presentScope found) (List.append_inj' below rfl).1
        exact ⟨i :: rest, by rw [same, List.cons_append]⟩

theorem slotInside {slot : Slot} {path : List String} {pin : String} {width : Nat}
    (known : outer.slot? slot = some ((outer.path place ++ path, pin), width)) :
    ∃ inside, slot = inside.under place ∧ inner.slot? inside = some ((path, pin), width) := by
  obtain ⟨present, below, -⟩ := slotPort known
  obtain ⟨rest, same⟩ := holds.placeInside of named present below
  obtain ⟨inside, rfl⟩ : ∃ inside : Slot, slot = inside.under place := by
    cases slot with
    | input under k => exact ⟨.input rest k, congrArg (Slot.input · k) same⟩
    | output under k => exact ⟨.output rest k, congrArg (Slot.output · k) same⟩
  rw [holds.slotUnder] at known
  obtain ⟨⟨⟨path', pin'⟩, width'⟩, here, equal⟩ := Option.map_eq_some_iff.mp known
  obtain ⟨pins, rfl⟩ := Prod.mk.inj equal
  obtain ⟨paths, rfl⟩ := Prod.mk.inj pins
  obtain rfl := List.append_cancel_left paths
  exact ⟨inside, rfl, here⟩

end Design.Holds

end CircuitSim
