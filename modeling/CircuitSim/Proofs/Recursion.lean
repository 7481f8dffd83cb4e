import CircuitSim.Circuit.Format
import CircuitSim.Proofs.Building
import CircuitSim.Proofs.Elaboration
import CircuitSim.Proofs.Notation
import CircuitSim.Proofs.Search

/-! What a text that loads says of recursive instantiation. The checks of a loaded circuit follow each instance to its
definition, but no further, so a definition can contain itself. The search is what finds that, where it gets to it. Main
statement: `loadedRecursion`. -/
namespace CircuitSim

namespace Circuit

theorem ofTextChecked {text : String} {circuit : Circuit} (loaded : ofText text = .ok circuit) :
    circuit.validate = .ok () := by
  have last : ∀ {chosen : Circuit}, (chosen.validate >>= fun _ => .ok chosen) = .ok circuit → circuit.validate = .ok () := by
    intro chosen ok
    obtain ⟨_, checked, done⟩ := Result.okBind ok
    cases done
    exact checked
  obtain ⟨⟨top, definitions⟩, -, ok⟩ := Result.okBind loaded
  obtain ⟨built, -, ok⟩ := Result.okBind ok
  cases top with
  | none => exact last ok
  | some name =>
    obtain ⟨chosen, -, ok⟩ := Result.okBind ok
    exact last ok

section Checked

variable {circuit : Circuit} (checked : circuit.validate = .ok ())
include checked

theorem checkedReachable {root : Nat} : (∃ order, circuit.reachable root = .ok order) ↔
    ∀ id, circuit.Needs root id → ¬Relation.TransGen circuit.Instantiates id id :=
  reachableIff.trans (and_iff_right fun id _ => validateKnown checked id)

theorem checkedRefuses {root : Nat} {fault : Fault} (failed : circuit.reachable root = .error fault) :
    ∃ id chain, fault = circuit.recursion id chain ∧ circuit.Descent root chain id ∧ id ∈ chain := by
  cases visitRefuses (.start root) (Nat.lt_succ_self _) failed with
  | @unknown id name needs mem missing =>
    obtain ⟨child, found⟩ := validateKnown checked id name mem
    cases missing.symm.trans (lookupFind.mp found)
  | @recursive id chain descent again => exact ⟨id, chain, rfl, descent, again⟩

end Checked

theorem searchRefuses {circuit : Circuit} {root : Nat} {fault : Fault} (failed : circuit.reachable root = .error fault)
    (library : Library) : circuit.flatten library root = .error fault := by
  rw [flatten, failed]
  rfl

end Circuit

theorem Simulator.searchRefuses {circuit : Circuit} (checked : circuit.validate = .ok ()) {root : Nat} {fault : Fault}
    (failed : circuit.reachable root = .error fault) (platform : Platform) (library : Library) (settings : Settings) :
    ofCircuit platform circuit library settings root = .error fault := by
  rw [ofCircuit, checked]
  simp only [bind, Except.bind, failed]

/-- In a circuit that was loaded, the search succeeds from all definitions exactly if none of them contains itself, and
from one exactly if none that it needs does. So it fails only by recursion, which is there; then neither a graph nor a
simulator is made for that definition, and what is below a simulator is free of it. -/
theorem Circuit.loadedRecursion {text : String} {circuit : Circuit} (loaded : ofText text = .ok circuit) :
    ((∀ root, ∃ order, circuit.reachable root = .ok order) ↔
      ∀ id, ¬Relation.TransGen circuit.Instantiates id id) ∧
    ∀ root,
      ((∃ order, circuit.reachable root = .ok order) ↔
        ∀ id, circuit.Needs root id → ¬Relation.TransGen circuit.Instantiates id id) ∧
      (∀ fault, circuit.reachable root = .error fault →
        (∃ id, ∃ chain : List Nat, fault = .invalidCircuit (.recursive (circuit.definition id).name
            (chain.map fun outer => (circuit.definition outer).name)) ∧
          circuit.Needs root id ∧ id ∈ chain ∧ Relation.TransGen circuit.Instantiates id id) ∧
        (∀ library, circuit.flatten library root = .error fault) ∧
        ∀ platform library settings, Simulator.ofCircuit platform circuit library settings root = .error fault) ∧
      ∀ platform library settings sim, Simulator.ofCircuit platform circuit library settings root = .ok sim →
        ∀ id, circuit.Needs root id → ∃ order, circuit.reachable id = .ok order := by
  have checked := ofTextChecked loaded
  refine ⟨⟨fun all id => ?_, fun none root => ?_⟩, fun root => ⟨checkedReachable checked, fun fault failed => ?_, ?_⟩⟩
  · exact (checkedReachable checked).mp (all id) id .refl
  · exact (checkedReachable checked).mpr fun id _ => none id
  · refine ⟨?_, searchRefuses failed, Simulator.searchRefuses checked failed⟩
    obtain ⟨id, chain, rfl, descent, again⟩ := checkedRefuses checked failed
    exact ⟨id, chain, rfl, descent.needs, again, descent.contains id again⟩
  · intro platform library settings sim built id needs
    obtain ⟨-, order, -, -, -, -, found, -⟩ := Simulator.ofCircuitPlan built
    have acyclic := (checkedReachable checked).mp ⟨order, found⟩
    exact (checkedReachable checked).mpr fun inner below => acyclic inner (needs.trans below)

def looped : Circuit := ⟨[{ name := "a", instances := [⟨"x", .definition "a"⟩] }, { name := "t" }], none⟩

def loopedText : String :=
  "\x7b\"definitions\":[\x7b\"name\":\"a\",\"instances\":[\x7b\"name\":\"x\",\"definition\":\"a\"\x7d]\x7d," ++
    "\x7b\"name\":\"t\"\x7d]\x7d"

def loopedTree : Json :=
  .object [(some "definitions", .array [
    .object [
      (some "name", .string (some "a")),
      (some "instances", .array [.object [
        (some "name", .string (some "x")), (some "definition", .string (some "a"))] none] none)] none,
    .object [(some "name", .string (some "t"))] none] none)] none

theorem loopedWritten : Json.Written (.value loopedTree) loopedText.toList := by
  have plain : ∀ text ∈ ["definitions", "name", "instances", "definition", "a", "x", "t"],
      text.toList.all Json.isPlain = true := by decide +kernel
  have key (name : String) (listed : name ∈ _) := Json.plainKey (plain name listed)
  have string (text : String) (listed : text ∈ _) := Json.plainString (plain text listed)
  have inst := Json.Written.object (.entries (key "name" (by simp)) (string "x" (by simp))
    (.entry (key "definition" (by simp)) (string "a" (by simp))))
  have first := Json.Written.object (.entries (key "name" (by simp)) (string "a" (by simp))
    (.entry (key "instances" (by simp)) (.array (.item inst))))
  have second := Json.Written.object (.entry (key "name" (by simp)) (string "t" (by simp)))
  have whole := Json.Written.object (.entry (key "definitions" (by simp)) (.array (.items first (.item second))))
  have chars : loopedText.toList = _ := String.toList_append.trans
    (congrArg₂ (· ++ ·) String.toList_ofList String.toList_ofList)
  exact (congrArg (Json.Written _) (.trans (by decide +kernel) chars.symm)).mp whole

theorem loopedLoads : Circuit.ofText loopedText = .ok looped := by
  have read : Json.readDocument Format.document loopedText = .ok ⟨none, looped.definitions⟩ := by
    rw [Json.readDocument, Json.textRead loopedWritten]
    decide +kernel
  rw [Circuit.ofText, read]
  decide +kernel

theorem loopedRefused : Circuit.ofText loopedText = .ok looped ∧
    looped.reachable 0 = .error (.invalidCircuit (.recursive "a" ["a"])) ∧
      (∀ library, looped.flatten library 0 = .error (.invalidCircuit (.recursive "a" ["a"]))) ∧
        ∀ platform library settings, Simulator.ofCircuit platform looped library settings 0 =
          .error (.invalidCircuit (.recursive "a" ["a"])) := by
  have failed : looped.reachable 0 = .error (.invalidCircuit (.recursive "a" ["a"])) := by decide +kernel
  obtain ⟨-, each⟩ := Circuit.loadedRecursion loopedLoads
  obtain ⟨-, refused, -⟩ := each 0
  obtain ⟨-, flat, built⟩ := refused _ failed
  exact ⟨loopedLoads, failed, flat, built⟩

theorem loopedUnnoticed : Circuit.ofText loopedText = .ok looped ∧ looped.top = .ok 1 ∧
    (∃ sim, Simulator.ofCircuit default looped .builtin {} 1 = .ok sim) ∧ 0 < looped.size ∧ looped.Instantiates 0 0 ∧
      ¬∃ order, looped.reachable 0 = .ok order := by
  have compiles : (Simulator.ofCircuit default looped .builtin {} 1).toOption.any (fun _ => true) = true := by decide +kernel
  have failed : looped.reachable 0 = .error (.invalidCircuit (.recursive "a" ["a"])) := by decide +kernel
  obtain ⟨sim, built, -⟩ := Result.okAny compiles
  refine ⟨loopedLoads, by decide +kernel, ⟨sim, built⟩, by decide +kernel, ⟨"a", by decide +kernel, by decide +kernel⟩, ?_⟩
  rintro ⟨order, found⟩
  cases failed.symm.trans found

end CircuitSim
