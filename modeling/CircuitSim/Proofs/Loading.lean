import CircuitSim.Proofs.Notation
import CircuitSim.Proofs.Spelling

/-! Loading a text of a circuit gives the circuit that it was written from. Main statement: `textLoads`. -/
namespace CircuitSim

namespace Circuit

variable {circuit circuit' : Circuit}

theorem addAllKeeps {definitions : List Definition} (ok : circuit.addAll definitions = .ok circuit') :
    circuit'.definitions = circuit.definitions ++ definitions ∧ circuit'.chosen = circuit.chosen := by
  induction definitions generalizing circuit with
  | nil =>
    cases ok
    exact ⟨(List.append_nil _).symm, rfl⟩
  | cons definition rest ih =>
    rw [addAll, List.foldlM_cons] at ok
    obtain ⟨between, added, ok⟩ := Result.okBind ok
    obtain ⟨⟨id, _⟩, ran, rfl⟩ := Result.okMap added
    obtain ⟨listed, chosen⟩ := ih ok
    rw [add] at ran
    split at ran
    · cases ran
    · cases ran
      exact ⟨listed.trans (List.append_assoc _ _ _), chosen⟩

theorem chooseChecks (circuit : Circuit) (id : Nat) (definition : Definition) (seen : List String)
    (instances : List Instance) : (circuit.choose id).checkInstances definition seen instances =
      circuit.checkInstances definition seen instances := by
  induction instances generalizing seen with
  | nil => rfl
  | cons inst instances ih =>
    rw [checkInstances, checkInstances, ih]
    rfl

theorem chooseValid (circuit : Circuit) (id : Nat) : (circuit.choose id).validate = circuit.validate := by
  simp only [validate, chooseChecks]
  rfl

theorem findKnown {definition : Definition} {name : String} (among : definition ∈ circuit.definitions)
    (named : definition.name = name) : ∃ id, circuit.find? name = some id := by
  refine Option.isSome_iff_exists.mp ?_
  rw [find?, List.findIdx?_isSome, List.any_eq_true]
  exact ⟨definition, among, decide_eq_true named⟩

end Circuit

open Json (IsObject IsText)

/-- A text writes a document if it writes one of the trees that spell it. -/
def Format.Document.WrittenAs (document : Format.Document) (text : String) : Prop :=
  ∃ tree, IsObject document.slots tree ∧ Json.Written (.value tree) text.toList

/-- Definitions that make a sound circuit, with the name of one of them as the top or without one, are loaded again
from every text that writes them: in the same order, found at the same places, and with the same top. -/
theorem Circuit.textLoads {document : Format.Document} {built : Circuit}
    (added : empty.addAll document.definitions = .ok built) (checked : built.validate = .ok ())
    (named : ∀ name, document.top = some name → ∃ definition ∈ document.definitions, definition.name = name)
    (sayable : ∀ definition ∈ document.definitions, definition.Sayable) {text : String}
    (written : document.WrittenAs text) :
    ∃ circuit, ofText text = .ok circuit ∧ circuit.definitions = document.definitions ∧
      (∀ name, circuit.find? name = built.find? name) ∧ (document.top = none → circuit.top = built.top) ∧
      ∀ name id, document.top = some name → built.find? name = some id → circuit.top = .ok id := by
  obtain ⟨top, definitions⟩ := document
  obtain ⟨tree, spelled, written⟩ := written
  obtain ⟨listed, -⟩ := addAllKeeps added
  have read : Json.readDocument Format.document text = .ok ⟨top, definitions⟩ := by
    rw [Json.readDocument, Json.textRead written]
    simp only [Format.documentReader sayable spelled, bind, Except.bind]
    rfl
  cases top with
  | none =>
    refine ⟨built, ?_, listed, fun _ => rfl, fun _ => rfl, by simp⟩
    rw [ofText, read]
    simp only [Except.mapError, bind, Except.bind, pure, Except.pure, added, checked]
  | some name =>
    obtain ⟨definition, among, here⟩ := named name rfl
    obtain ⟨id, found⟩ := @findKnown built definition name (listed ▸ among) here
    refine ⟨built.choose id, ?_, listed, fun _ => rfl, by simp, fun other place same found' => ?_⟩
    · have sound := (chooseValid built id).trans checked
      rw [ofText, read]
      simp only [Except.mapError, bind, Except.bind, pure, Except.pure, added, lookup, found, Except.map, sound]
    · cases same
      rw [top, choose]
      exact congrArg Except.ok (Option.some.inj (found.symm.trans found'))

def inverter : Format.Document := ⟨some "é", [
  { name := "é"
    inputs := [⟨"a.b", 8⟩]
    instances := [⟨"u", .primitive "not" [("width", 8)]⟩]
    nets := [⟨.own "a.b", [.of "u" "in"]⟩] },
  { name := "t" }]⟩

def inverterText : String :=
  "\x7b \"definitions\":[\x7b\"nets\":[\x7b\"sinks\":[\"u.in\"],\"source\":\"self.a.b\"\x7d],\"outputs\":[]," ++
    "\"instances\":[\x7b\"args\":\x7b\"width\":8\x7d,\"name\":\"u\",\"primitive\":\"not\"\x7d],\"name\":\"\\u00e9\"," ++
    "\"inputs\":[\x7b\"width\":8,\"name\":\"a.b\"\x7d]\x7d,\x7b\"name\":\"t\"\x7d],\"top\":\"\\u00E9\"\x7d"

def inverterTree : Json :=
  .object [
    (some "definitions", .array [
      .object [
        (some "nets", .array [.object [
          (some "sinks", .array [.string (some "u.in")] none),
          (some "source", .string (some "self.a.b"))] none] none),
        (some "outputs", .array [] none),
        (some "instances", .array [.object [
          (some "args", .object [(some "width", .number (.whole 8))] none),
          (some "name", .string (some "u")),
          (some "primitive", .string (some "not"))] none] none),
        (some "name", .string (some "é")),
        (some "inputs", .array [.object [
          (some "width", .number (.whole 8)),
          (some "name", .string (some "a.b"))] none] none)] none,
      .object [(some "name", .string (some "t"))] none] none),
    (some "top", .string (some "é"))] none

theorem inverterSpelled : IsObject inverter.slots inverterTree := by
  have net : IsObject (Net.slots ⟨.own "a.b", [.of "u" "in"]⟩) (.object [
      (some "sinks", .array [.string (some "u.in")] none), (some "source", .string (some "self.a.b"))] none) := by
    have source : (Pin.own "a.b").Spelled (.string (some "self.a.b")) := .inl rfl
    have sink : (Pin.of "u" "in").Spelled (.string (some "u.in")) := .inl rfl
    exact ⟨[("sinks", _), ("source", _)],
      ⟨by decide, by simp [Net.slots, Json.IsArray, source, sink], by simp [Net.slots]⟩, rfl⟩
  have args : IsObject (Args.slots [("width", 8)]) (.object [(some "width", .number (.whole 8))] none) :=
    ⟨[("width", _)], ⟨by decide, by simp [Args.slots, Json.IsWhole], by simp [Args.slots]⟩, rfl⟩
  have inst : IsObject (Instance.slots ⟨"u", .primitive "not" [("width", 8)]⟩) (.object [
      (some "args", .object [(some "width", .number (.whole 8))] none), (some "name", .string (some "u")),
      (some "primitive", .string (some "not"))] none) :=
    ⟨[("args", _), ("name", _), ("primitive", _)], ⟨by decide,
      by simp [Instance.slots, Part.slots, IsText, args], by simp [Instance.slots, Part.slots]⟩, rfl⟩
  have port : IsObject (Port.slots ⟨"a.b", 8⟩) (.object [
      (some "width", .number (.whole 8)), (some "name", .string (some "a.b"))] none) :=
    ⟨[("width", _), ("name", _)],
      ⟨by decide, by simp [Port.slots, IsText, Json.IsWhole], by simp [Port.slots]⟩, rfl⟩
  refine ⟨[("definitions", _), ("top", _)],
    ⟨by decide, List.forall_mem_cons.mpr ⟨?definitions, List.forall_mem_singleton.mpr ?top⟩,
      by simp [Format.Document.slots]⟩, rfl⟩
  case definitions =>
    refine ⟨_, List.mem_cons_of_mem _ List.mem_cons_self, rfl, [_, _], .cons ?first (.cons ?second .nil), rfl⟩
    case first =>
      exact ⟨[("nets", _), ("outputs", _), ("instances", _), ("name", _), ("inputs", _)], ⟨by decide,
        by simp [Definition.slots, Json.IsArray, IsText, net, inst, port], by simp [Definition.slots]⟩, rfl⟩
    case second =>
      exact ⟨[("name", _)], ⟨by decide, by simp [Definition.slots, IsText], by simp [Definition.slots]⟩, rfl⟩
  case top => exact ⟨_, List.mem_cons_self, rfl, rfl⟩

theorem inverterWritten : Json.Written (.value inverterTree) inverterText.toList := by
  have plain : ∀ text ∈ ["definitions", "nets", "sinks", "u.in", "source", "self.a.b", "outputs", "instances", "args",
      "width", "name", "u", "primitive", "not", "inputs", "a.b", "t", "top"],
      text.toList.all Json.isPlain = true := by decide +kernel
  have key (name : String) (listed : name ∈ _) := Json.plainKey (plain name listed)
  have spaced : Json.IsKey "definitions" (' ' :: '"' :: ("definitions".toList ++ ['"'])) :=
    ⟨[' '], "definitions".toList, [], by simp [Json.Blank, Json.isBlank], Json.plainQuoting (plain _ (by simp)),
      List.forall_mem_nil _, rfl⟩
  have string (text : String) (listed : text ∈ _) := Json.plainString (plain text listed)
  have width : Json.Written (.value (.number (.whole 8))) ['8'] := .whole (by decide)
  have accent (digits : List Char) (spelled : Json.HexUnit 0xE9 digits) :
      Json.Written (.value (.string (some "é"))) ('"' :: ('\\' :: 'u' :: (digits ++ []) ++ ['"'])) :=
    .string (.unit (by decide) spelled .nil)
  have small : Json.HexUnit 0xE9 ['0', '0', 'e', '9'] :=
    .cons ⟨by decide, .inl rfl⟩ (.cons ⟨by decide, .inl rfl⟩ (.cons ⟨by decide, .inl rfl⟩
      (.cons ⟨by decide, .inl rfl⟩ .nil)))
  have large : Json.HexUnit 0xE9 ['0', '0', 'E', '9'] :=
    .cons ⟨by decide, .inl rfl⟩ (.cons ⟨by decide, .inl rfl⟩ (.cons ⟨by decide, .inr (by decide)⟩
      (.cons ⟨by decide, .inl rfl⟩ .nil)))
  have net := Json.Written.object (.entries (key "sinks" (by simp)) (.array (.item (string "u.in" (by simp))))
    (.entry (key "source" (by simp)) (string "self.a.b" (by simp))))
  have args := Json.Written.object (.entry (key "width" (by simp)) width)
  have inst := Json.Written.object (.entries (key "args" (by simp)) args
    (.entries (key "name" (by simp)) (string "u" (by simp))
      (.entry (key "primitive" (by simp)) (string "not" (by simp)))))
  have port := Json.Written.object (.entries (key "width" (by simp)) width
    (.entry (key "name" (by simp)) (string "a.b" (by simp))))
  have first := Json.Written.object (.entries (key "nets" (by simp)) (.array (.item net))
    (.entries (key "outputs" (by simp)) (.emptyArray (List.forall_mem_nil _))
      (.entries (key "instances" (by simp)) (.array (.item inst))
        (.entries (key "name" (by simp)) (accent _ small)
          (.entry (key "inputs" (by simp)) (.array (.item port)))))))
  have second := Json.Written.object (.entry (key "name" (by simp)) (string "t" (by simp)))
  have whole := Json.Written.object (.entries spaced (.array (.items first (.item second)))
    (.entry (key "top" (by simp)) (accent _ large)))
  -- The pieces of the text are lists of characters as they stand; taking their characters would be slow.
  have chars : inverterText.toList = _ := String.toList_append.trans (congrArg₂ (· ++ ·)
    (String.toList_append.trans (congrArg₂ (· ++ ·) String.toList_ofList String.toList_ofList)) String.toList_ofList)
  exact (congrArg (Json.Written _) (.trans (by decide +kernel) chars.symm)).mp whole

theorem inverterLoads : inverter.WrittenAs inverterText ∧ ∃ circuit, Circuit.ofText inverterText = .ok circuit ∧
    circuit.definitions = inverter.definitions ∧ circuit.top = .ok 0 := by
  have written : inverter.WrittenAs inverterText := ⟨inverterTree, inverterSpelled, inverterWritten⟩
  have checked : (⟨inverter.definitions, none⟩ : Circuit).validate = .ok () := by decide +kernel
  have named : ∀ name, inverter.top = some name → ∃ definition ∈ inverter.definitions, definition.name = name := by
    intro name chosen
    exact ⟨_, List.mem_cons_self, Option.some.inj chosen⟩
  have sayable : ∀ definition ∈ inverter.definitions, definition.Sayable := by
    intro definition among
    rcases List.mem_cons.mp among with rfl | among
    · exact ⟨by simp, by simp [Args.Sorted], by simp [Pin.own, Pin.of, Circuit.usableName]⟩
    · obtain rfl := List.mem_singleton.mp among
      exact ⟨by simp, by simp, by simp⟩
  obtain ⟨circuit, loaded, listed, -, -, top⟩ := Circuit.textLoads rfl checked named sayable written
  exact ⟨written, circuit, loaded, listed, top "é" 0 rfl (by decide +kernel)⟩

end CircuitSim
