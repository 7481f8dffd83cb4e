import CircuitSim.Circuit.Format
import CircuitSim.Proofs.Objects
import Mathlib.Data.String.Basic

/-! The JSON trees that spell a circuit, and that each of them is read as that circuit. Main statement:
`documentReader`. -/
namespace CircuitSim

open Json (IsText IsWhole IsArray IsObject Fills)

def Pin.Spelled (pin : Pin) (tree : Json) : Prop :=
  IsText pin.text tree ∨ pin.owner = none ∧ '.' ∉ pin.port.toList ∧ IsText pin.port tree

def Port.slots (port : Port) : List Json.Slot :=
  [⟨"name", IsText port.name, False⟩, ⟨"width", IsWhole port.width, False⟩]

def Net.slots (net : Net) : List Json.Slot :=
  [⟨"source", net.source.Spelled, False⟩, ⟨"sinks", IsArray Pin.Spelled net.sinks, False⟩]

def Args.slots (args : Args) : List Json.Slot := args.map fun arg => ⟨arg.1, IsWhole arg.2, False⟩

def Part.slots : Part → List Json.Slot
  | .primitive kind args => [⟨"primitive", IsText kind, False⟩, ⟨"args", IsObject (Args.slots args), args = []⟩]
  | .definition name => [⟨"definition", IsText name, False⟩]

def Instance.slots (inst : Instance) : List Json.Slot := ⟨"name", IsText inst.name, False⟩ :: inst.part.slots

def Definition.slots (definition : Definition) : List Json.Slot :=
  [⟨"name", IsText definition.name, False⟩,
    ⟨"inputs", IsArray (fun port => IsObject port.slots) definition.inputs, definition.inputs = []⟩,
    ⟨"outputs", IsArray (fun port => IsObject port.slots) definition.outputs, definition.outputs = []⟩,
    ⟨"instances", IsArray (fun inst => IsObject inst.slots) definition.instances, definition.instances = []⟩,
    ⟨"nets", IsArray (fun net => IsObject net.slots) definition.nets, definition.nets = []⟩]

def Format.TopSpelled : Option String → Json → Prop
  | none, tree => tree = .null
  | some name, tree => IsText name tree

def Format.Document.slots (document : Format.Document) : List Json.Slot :=
  [⟨"top", TopSpelled document.top, document.top = none⟩,
    ⟨"definitions", IsArray (fun definition => IsObject definition.slots) document.definitions, False⟩]

def Args.Sorted (args : Args) : Prop := args.Pairwise fun a b => a.1 < b.1

/-- What the notation of circuits can say: widths of 32 bits, arguments that are sorted with one value a name, and
pins of instances whose names can stand before a dot. -/
structure Definition.Sayable (definition : Definition) : Prop where
  widths : ∀ port ∈ definition.inputs ++ definition.outputs, port.width < 2 ^ 32
  sorted : ∀ inst ∈ definition.instances, ∀ kind args, inst.part = .primitive kind args → args.Sorted
  owners : ∀ net ∈ definition.nets, ∀ pin ∈ net.source :: net.sinks, ∀ owner, pin.owner = some owner →
    Circuit.usableName owner = true

namespace Args

theorem setPerm {args : Args} {name : String} (new : name ∉ args.map (·.1)) (value : Nat) :
    (args.set name value).Perm ((name, value) :: args) := by
  induction args with
  | nil => exact .refl _
  | cons arg args ih =>
    rw [List.map_cons, List.mem_cons, not_or] at new
    obtain ⟨other, v⟩ := arg
    rw [set, if_neg new.1]
    split
    · exact .refl _
    · exact ((ih new.2).cons _).trans (.swap _ _ _)

theorem setMember {args : Args} {name : String} {value : Nat} {arg : String × Nat}
    (among : arg ∈ args.set name value) : arg = (name, value) ∨ arg ∈ args := by
  induction args with
  | nil => exact .inl (List.mem_singleton.mp among)
  | cons other args ih =>
    rw [set] at among
    split at among
    · exact (List.mem_cons.mp among).imp id (List.mem_cons_of_mem _)
    · split at among
      · exact List.mem_cons.mp among
      · rcases List.mem_cons.mp among with rfl | later
        · exact .inr List.mem_cons_self
        · exact (ih later).imp id (List.mem_cons_of_mem _)

theorem setSorted {args : Args} (sorted : args.Sorted) (name : String) (value : Nat) :
    (args.set name value).Sorted := by
  induction args with
  | nil => exact List.pairwise_singleton _ _
  | cons arg args ih =>
    obtain ⟨other, v⟩ := arg
    obtain ⟨least, rest⟩ := List.pairwise_cons.mp sorted
    rw [set]
    split
    · rename_i same
      subst same
      exact List.pairwise_cons.mpr ⟨least, rest⟩
    · rename_i different
      split
      · rename_i less
        refine List.pairwise_cons.mpr ⟨fun arg among => ?_, sorted⟩
        rcases List.mem_cons.mp among with rfl | later
        · exact less
        · exact lt_trans less (least arg later)
      · rename_i notLess
        refine List.pairwise_cons.mpr ⟨fun arg among => ?_, ih rest⟩
        rcases setMember among with rfl | later
        · exact lt_of_le_of_ne (not_lt.mp notLess) (Ne.symm different)
        · exact least arg later

theorem setAll {pairs : List (String × Nat)} {args : Args} (fresh : ((pairs ++ args).map (·.1)).Nodup)
    (sorted : args.Sorted) :
    (pairs.foldl (fun args pair => args.set pair.1 pair.2) args).Perm (pairs ++ args) ∧
      Sorted (pairs.foldl (fun args pair => args.set pair.1 pair.2) args) := by
  induction pairs generalizing args with
  | nil => exact ⟨.refl _, sorted⟩
  | cons pair pairs ih =>
    have first := fresh
    rw [List.cons_append, List.map_cons, List.nodup_cons, List.map_append] at first
    have new : pair.1 ∉ args.map (·.1) := fun old => first.1 (List.mem_append_right _ old)
    have moved : (pairs ++ args.set pair.1 pair.2).Perm (pair :: pairs ++ args) :=
      ((setPerm new pair.2).append_left pairs).trans List.perm_middle
    obtain ⟨perm, ordered⟩ := ih ((moved.map _).nodup_iff.mpr fresh) (setSorted sorted pair.1 pair.2)
    exact ⟨perm.trans moved, ordered⟩

theorem sortedUnique {args args' : Args} (sorted : args.Sorted) (sorted' : args'.Sorted) (perm : args.Perm args') :
    args = args' :=
  perm.eq_of_pairwise (fun _ _ _ _ less more => absurd more (lt_asymm less)) sorted sorted'

end Args

namespace Format

theorem pinReader {pin : Pin} {tree : Json}
    (usable : ∀ owner, pin.owner = some owner → Circuit.usableName owner = true) (spelled : pin.Spelled tree) :
    Format.pin tree = .ok pin := by
  obtain ⟨owner, port⟩ := pin
  rcases spelled with text | ⟨own, noDot, text⟩
  · rw [Format.pin, Json.textReader text]
    cases owner with
    | none =>
      have split : Pin.split ("self".toList ++ '.' :: port.toList) = some ("self".toList, port.toList) :=
        Pin.split_append (by decide)
      have parts : (Pin.text ⟨none, port⟩).toList = "self".toList ++ '.' :: port.toList :=
        String.toList_append
      rw [Except.map, Pin.ofText, parts, split]
      simp [Pin.own]
    | some owner =>
      have usable := usable owner rfl
      simp only [Circuit.usableName, ne_eq, Bool.and_eq_true, decide_eq_true_eq, Bool.not_eq_true',
        List.contains_eq_mem, decide_eq_false_iff_not] at usable
      have parts : (Pin.text ⟨some owner, port⟩).toList = owner.toList ++ '.' :: port.toList := by
        change (owner ++ "." ++ port).toList = _
        rw [String.toList_append, String.toList_append, List.append_assoc]
        rfl
      rw [Except.map, Pin.ofText, parts, Pin.split_append usable.2]
      simp [Pin.of, usable.1.1]
  · obtain rfl : owner = none := own
    rw [Format.pin, Json.textReader text, Except.map, Pin.ofText, Pin.split_eq_none noDot, Pin.own]

def reached {α : Type} [Inhabited α] (seen : List String) (name : String) (value : α) : α :=
  if name ∈ seen then value else default

theorem reachedDone {α : Type} [Inhabited α] {seen : List String} {name : String} {value : α}
    (done : value = default ∨ name ∈ seen) : reached seen name value = value := by
  rw [reached]
  split
  · rfl
  · exact (done.resolve_right ‹_›).symm

def portSoFar (port : Port) (seen : List String) : Port :=
  ⟨reached seen "name" port.name, reached seen "width" port.width⟩

theorem portReader {port : Port} {tree : Json} (small : port.width < 2 ^ 32) (object : IsObject port.slots tree) :
    Format.port tree = .ok port := by
  refine Json.structureReader (.cons ?name (.cons ?width .nil)) (by simp) object
    (rfl : portSoFar port [] = default) ?full
  case name =>
    exact .ofReader port.name (fun _ => Json.textReader) (fun seen => by simp [portSoFar, reached]) fun _ => id
  case width =>
    exact .ofReader port.width (fun _ => Json.wholeReader small) (fun seen => by simp [portSoFar, reached])
      fun _ => id
  intro seen done
  simp only [List.forall_mem_cons, false_or] at done
  rw [portSoFar, reachedDone (.inr done.1), reachedDone (.inr done.2.1)]

def netSoFar (net : Net) (seen : List String) : Net :=
  ⟨reached seen "source" net.source, reached seen "sinks" net.sinks⟩

theorem netReader {net : Net} {tree : Json} (usable : ∀ pin ∈ net.source :: net.sinks, ∀ owner,
    pin.owner = some owner → Circuit.usableName owner = true) (object : IsObject net.slots tree) :
    Format.net tree = .ok net := by
  have pins (pin : Pin) (among : pin ∈ net.sinks) (tree : Json) (spelled : pin.Spelled tree) :
      Format.pin tree = .ok pin :=
    pinReader (usable pin (List.mem_cons_of_mem _ among)) spelled
  refine Json.structureReader (.cons ?source (.cons ?sinks .nil)) (by simp) object
    (rfl : netSoFar net [] = default) ?full
  case source =>
    exact .ofReader net.source (fun _ => pinReader (usable net.source List.mem_cons_self))
      (fun seen => by simp [netSoFar, reached]) fun _ => id
  case sinks =>
    exact .ofReader net.sinks (fun _ array => Json.listReader array pins) (fun seen => by simp [netSoFar, reached])
      fun _ => id
  intro seen done
  simp only [List.forall_mem_cons, false_or] at done
  rw [netSoFar, reachedDone (.inr done.1), reachedDone (.inr done.2.1)]

theorem valuesAbsent {name : String} {entries : List (String × Json)}
    (absent : ∀ entry ∈ entries, entry.1 ≠ name) : valuesOf name entries = [] := by
  rw [valuesOf, List.filter_eq_nil_iff.mpr fun entry among => by simpa using absent entry among, List.map_nil]

theorem valuesOnce {name : String} {front back : List (String × Json)} {item : Json}
    (others : ∀ entry ∈ front ++ back, entry.1 ≠ name) :
    valuesOf name (front ++ (name, item) :: back) = [item] := by
  have before := valuesAbsent fun entry among => others entry (List.mem_append_left back among)
  have behind := valuesAbsent fun entry among => others entry (List.mem_append_right front among)
  rw [valuesOf] at before behind ⊢
  rw [List.filter_append, List.map_append, before, List.filter_cons_of_pos (by simp), List.map_cons, behind,
    List.nil_append]

theorem valuesFilled {slots : List Json.Slot} {entries : List (String × Json)} (filled : Fills slots entries)
    (distinct : (slots.map (·.name)).Nodup) {slot : Json.Slot} (among : slot ∈ slots) :
    slot.omitted ∧ valuesOf slot.name entries = [] ∨
      ∃ item, slot.spelled item ∧ valuesOf slot.name entries = [item] := by
  rcases filled.split distinct among with ⟨omitted, absent⟩ | ⟨front, item, back, rfl, spelled, others⟩
  · exact .inl ⟨omitted, valuesAbsent fun entry among same => absent (same ▸ List.mem_map_of_mem among)⟩
  · exact .inr ⟨item, spelled, valuesOnce others⟩

theorem argsSet {pairs : List (String × Nat)} {args : Args} :
    args? (pairs.map fun pair => (some pair.1, Json.number (.whole pair.2))) args =
      some (pairs.foldl (fun args pair => args.set pair.1 pair.2) args) := by
  induction pairs generalizing args with
  | nil => rfl
  | cons pair pairs ih => exact ih

theorem argsListed {args : Args} (sorted : args.Sorted) {entries : List (String × Json)}
    (filled : Fills (Args.slots args) entries) :
    ∃ pairs : List (String × Nat), pairs.Perm args ∧
      entries = pairs.map fun pair => (pair.1, Json.number (.whole pair.2)) := by
  have whole : ∀ entry ∈ entries, ∃ pair ∈ args, (pair.1, Json.number (.whole pair.2)) = entry := by
    intro entry among
    obtain ⟨slot, listed, named, spelled⟩ := filled.known entry among
    obtain ⟨pair, given, rfl⟩ := List.mem_map.mp listed
    exact ⟨pair, given, Prod.ext named spelled.symm⟩
  obtain ⟨pairs, among, rfl⟩ := Result.mapOnto whole
  have once : (pairs.map (·.1)).Nodup := by
    have once := filled.once
    rwa [List.map_map] at once
  have distinct : (args.map (·.1)).Nodup := sorted.map _ fun _ _ less => ne_of_lt less
  have all : ∀ pair ∈ args, pair ∈ pairs := by
    intro pair given
    have listed := (filled.given _ (List.mem_map_of_mem given)).resolve_left id
    rw [List.map_map] at listed
    obtain ⟨other, here, same⟩ := List.mem_map.mp listed
    rwa [← List.inj_on_of_nodup_map distinct (among other here) given same]
  exact ⟨pairs, (List.perm_ext_iff_of_nodup once.of_map distinct.of_map).mpr fun pair => ⟨among pair, all pair⟩, rfl⟩

theorem argsReader {args : Args} (sorted : args.Sorted) {entries : List (String × Json)}
    (filled : Fills (Args.slots args) entries) :
    args? (entries.map fun entry => (some entry.1, entry.2)) [] = some args := by
  obtain ⟨pairs, same, rfl⟩ := argsListed sorted filled
  have distinct : (pairs.map (·.1)).Nodup :=
    (same.map _).nodup_iff.mpr (sorted.map _ fun _ _ less => ne_of_lt less)
  obtain ⟨perm, ordered⟩ := @Args.setAll pairs [] (by rwa [List.append_nil]) .nil
  rw [List.append_nil] at perm
  rw [List.map_map]
  exact argsSet.trans (congrArg some (Args.sortedUnique ordered sorted (perm.trans same)))

theorem partReader {part : Part} (sorted : ∀ kind args, part = .primitive kind args → args.Sorted)
    {entries : List (String × Json)} (filled : Fills part.slots entries) : part? entries = some part := by
  cases part with
  | primitive kind args =>
    have distinct : ((Part.primitive kind args).slots.map (·.name)).Nodup := by simp [Part.slots]
    obtain ⟨never, -⟩ | ⟨item, rfl, named⟩ := valuesFilled filled distinct List.mem_cons_self
    · cases never
    have given : generatorArgs? (valuesOf "args" entries) = some args := by
      obtain ⟨rfl, absent⟩ | ⟨item, ⟨list, within, rfl⟩, found⟩ :=
        valuesFilled filled distinct (List.mem_cons_of_mem _ List.mem_cons_self)
      · rw [absent, generatorArgs?]
      · rw [found, generatorArgs?, argsReader (sorted kind args rfl) within]
    simp only [part?, given, named, text?]
  | definition name =>
    have noKind : valuesOf "primitive" entries = [] := by
      refine valuesAbsent fun entry among same => ?_
      obtain ⟨slot, listed, named, -⟩ := filled.known entry among
      rw [same, List.mem_singleton.mp listed] at named
      simp at named
    obtain ⟨never, -⟩ | ⟨item, rfl, named⟩ := valuesFilled filled (by simp [Part.slots]) List.mem_cons_self
    · cases never
    simp only [part?, noKind, named, text?, Option.map_some]

theorem wholesKept {args : Args} {depth : Nat} {entries : List (String × Json)}
    (known : ∀ entry ∈ entries, ∃ slot ∈ Args.slots args, slot.name = entry.1 ∧ slot.spelled entry.2) :
    Json.keepEntries depth (entries.map fun entry => (some entry.1, entry.2)) = .ok () := by
  induction entries with
  | nil => rfl
  | cons entry entries ih =>
    obtain ⟨slot, listed, -, spelled⟩ := known entry List.mem_cons_self
    obtain ⟨arg, -, rfl⟩ := List.mem_map.mp listed
    obtain ⟨name, item⟩ := entry
    obtain rfl : item = .number (.whole arg.2) := spelled
    rw [List.map_cons, Json.keepEntries]
    exact ih fun other later => known other (List.mem_cons_of_mem _ later)

theorem partKept {part : Part} {slot : Json.Slot} (among : slot ∈ part.slots) {item : Json}
    (spelled : slot.spelled item) : Json.keep instanceDepth item = .ok () := by
  cases part with
  | primitive kind args =>
    rcases List.mem_cons.mp among with rfl | among
    · obtain rfl : item = .string (some kind) := spelled
      rfl
    · obtain rfl := List.mem_singleton.mp among
      obtain ⟨entries, filled, rfl⟩ := spelled
      rw [Json.keep, if_neg (by decide), wholesKept filled.known]
      rfl
  | definition name =>
    obtain rfl := List.mem_singleton.mp among
    obtain rfl : item = .string (some name) := spelled
    rfl

theorem othersKept {front : List (String × Json)} (kept : ∀ entry ∈ front, entry.1 ≠ "name" ∧
    Json.keep instanceDepth entry.2 = .ok ()) (name : Option String) (others : List (String × Json))
    (rest : List (Option String × Json)) :
    instanceEntries name others (front.map (fun entry => (some entry.1, entry.2)) ++ rest) =
      instanceEntries name (front.reverse ++ others) rest := by
  induction front generalizing others with
  | nil => rfl
  | cons entry front ih =>
    obtain ⟨other, keeps⟩ := kept entry List.mem_cons_self
    rw [List.map_cons, List.cons_append, instanceEntries, if_neg other, keeps]
    exact (ih (fun later among => kept later (List.mem_cons_of_mem entry among)) (entry :: others)).trans (by simp)

theorem instReader {inst : Instance} {tree : Json}
    (sorted : ∀ kind args, inst.part = .primitive kind args → args.Sorted) (object : IsObject inst.slots tree) :
    Format.inst tree = .ok inst := by
  obtain ⟨entries, filled, rfl⟩ := object
  have distinct : (inst.slots.map (·.name)).Nodup := by
    rw [Instance.slots]
    cases inst.part <;> simp [Part.slots]
  obtain ⟨never, -⟩ | ⟨front, item, back, rfl, rfl, others⟩ := filled.split distinct List.mem_cons_self
  · cases never
  have part : Fills inst.part.slots (front ++ back) := filled.without distinct others
  have kept : ∀ entry ∈ front ++ back, entry.1 ≠ "name" ∧ Json.keep instanceDepth entry.2 = .ok () := by
    intro entry among
    obtain ⟨slot, listed, -, spelled⟩ := part.known entry among
    exact ⟨others entry among, partKept listed spelled⟩
  rw [List.forall_mem_append] at kept
  have found : instanceEntries none []
      ((front ++ ("name", .string (some inst.name)) :: back).map fun entry => (some entry.1, entry.2)) =
        .ok (some inst.name, front ++ back) := by
    rw [List.map_append, othersKept kept.1, List.map_cons, instanceEntries, if_pos rfl,
      ← List.append_nil (back.map _)]
    change instanceEntries (some inst.name) _ _ = _
    rw [othersKept kept.2, instanceEntries]
    simp
  rw [Format.inst]
  simp only [found, Json.stopped, bind, Except.bind, partReader sorted part]
  rfl

def definitionSoFar (definition : Definition) (seen : List String) : Definition :=
  ⟨reached seen "name" definition.name, reached seen "inputs" definition.inputs,
    reached seen "outputs" definition.outputs, reached seen "instances" definition.instances,
    reached seen "nets" definition.nets⟩

theorem definitionReader {definition : Definition} {tree : Json} (sayable : definition.Sayable)
    (object : IsObject definition.slots tree) : Format.definition tree = .ok definition := by
  have widths := sayable.widths
  rw [List.forall_mem_append] at widths
  refine Json.structureReader (.cons ?name (.cons ?inputs (.cons ?outputs (.cons ?instances (.cons ?nets .nil)))))
    (by simp) object (rfl : definitionSoFar definition [] = default) ?full
  case name =>
    exact .ofReader definition.name (fun _ => Json.textReader) (fun seen => by simp [definitionSoFar, reached])
      fun _ => id
  case inputs =>
    exact .ofReader definition.inputs
      (fun _ array => Json.listReader array fun port among _ => portReader (widths.1 port among))
      (fun seen => by simp [definitionSoFar, reached]) (by simp)
  case outputs =>
    exact .ofReader definition.outputs
      (fun _ array => Json.listReader array fun port among _ => portReader (widths.2 port among))
      (fun seen => by simp [definitionSoFar, reached]) (by simp)
  case instances =>
    exact .ofReader definition.instances
      (fun _ array => Json.listReader array fun inst among _ => instReader (sayable.sorted inst among))
      (fun seen => by simp [definitionSoFar, reached]) (by simp)
  case nets =>
    exact .ofReader definition.nets
      (fun _ array => Json.listReader array fun net among _ => netReader (sayable.owners net among))
      (fun seen => by simp [definitionSoFar, reached]) (by simp)
  intro seen done
  simp only [List.forall_mem_cons, false_or] at done
  obtain ⟨name, inputs, outputs, instances, nets, -⟩ := done
  rw [definitionSoFar, reachedDone (.inr name), reachedDone inputs, reachedDone outputs, reachedDone instances,
    reachedDone nets]

theorem topReader {top : Option String} {tree : Json} (spelled : TopSpelled top tree) :
    Json.readOption Json.readText tree = .ok top := by
  cases top with
  | none =>
    obtain rfl : tree = .null := spelled
    rfl
  | some name =>
    obtain rfl : tree = .string (some name) := spelled
    rfl

def documentSoFar (document : Format.Document) (seen : List String) : Format.Document :=
  ⟨reached seen "top" document.top, reached seen "definitions" document.definitions⟩

theorem documentReader {document : Format.Document} {tree : Json}
    (sayable : ∀ definition ∈ document.definitions, definition.Sayable) (object : IsObject document.slots tree) :
    Format.document tree = .ok document := by
  refine Json.structureReader (.cons ?top (.cons ?definitions .nil)) (by simp) object
    (rfl : documentSoFar document [] = default) ?full
  case top =>
    exact .ofReader document.top (fun _ => topReader) (fun seen => by simp [documentSoFar, reached]) (by simp)
  case definitions =>
    exact .ofReader document.definitions
      (fun _ array => Json.listReader array fun definition among _ => definitionReader (sayable definition among))
      (fun seen => by simp [documentSoFar, reached]) fun _ => id
  intro seen done
  simp only [List.forall_mem_cons, false_or] at done
  rw [documentSoFar, reachedDone done.1, reachedDone (.inr done.2.1)]

end Format

end CircuitSim
