import CircuitSim.Json.Read
import CircuitSim.Proofs.Result
import Mathlib.Data.List.Nodup

/-! Reading structures out of objects whose entries stand in any order. Main statement: `structureReader`. -/
namespace CircuitSim

namespace Json

def IsText (text : String) (tree : Json) : Prop := tree = .string (some text)

def IsWhole (n : Nat) (tree : Json) : Prop := tree = .number (.whole n)

def IsArray {α : Type} (spelled : α → Json → Prop) (list : List α) (tree : Json) : Prop :=
  ∃ items, List.Forall₂ spelled list items ∧ tree = .array items none

structure Slot where
  name : String
  spelled : Json → Prop
  omitted : Prop

structure Fills (slots : List Slot) (entries : List (String × Json)) : Prop where
  once : (entries.map (·.1)).Nodup
  known : ∀ entry ∈ entries, ∃ slot ∈ slots, slot.name = entry.1 ∧ slot.spelled entry.2
  given : ∀ slot ∈ slots, slot.omitted ∨ slot.name ∈ entries.map (·.1)

def IsObject (slots : List Slot) (tree : Json) : Prop :=
  ∃ entries, Fills slots entries ∧ tree = .object (entries.map fun entry => (some entry.1, entry.2)) none

theorem textReader {text : String} {tree : Json} (spelled : IsText text tree) : readText tree = .ok text := by
  rw [spelled, readText]

theorem wholeReader {bound n : Nat} {tree : Json} (small : n < bound) (spelled : IsWhole n tree) :
    readBelow bound tree = .ok n := by
  rw [spelled, readBelow, if_pos small]

theorem listReader {α : Type} {spelled : α → Json → Prop} {reader : Reader α} {list : List α} {tree : Json}
    (array : IsArray spelled list tree) (each : ∀ x ∈ list, ∀ item, spelled x item → reader item = .ok x) :
    readList reader tree = .ok list := by
  obtain ⟨items, paired, rfl⟩ := array
  have read : List.Forall₂ (fun item x => reader item = .ok x) items list := by
    induction paired with
    | nil => exact .nil
    | @cons x item list items head _ ih =>
      exact .cons (each x List.mem_cons_self item head) (ih fun y among => each y (List.mem_cons_of_mem x among))
  rw [readList, Result.mapMAll read]
  rfl

structure Field.Fits {σ : Type} (mix : List String → σ) (field : Field σ) (slot : Slot) : Prop where
  name : field.name = slot.name
  required : field.required = true → ¬slot.omitted
  read : ∀ seen tree, slot.spelled tree → field.read tree (mix seen) = .ok (mix (slot.name :: seen))

theorem Field.Fits.ofReader {σ α : Type} {mix : List String → σ} {name : String} {required : Bool} {reader : Reader α}
    {put : α → σ → σ} {spelled : Json → Prop} {omitted : Prop} (value : α)
    (reads : ∀ tree, spelled tree → reader tree = .ok value)
    (puts : ∀ seen, put value (mix seen) = mix (name :: seen)) (needed : required = true → ¬omitted) :
    Field.Fits mix ⟨name, required, fun tree s => (reader tree).map fun x => put x s⟩ ⟨name, spelled, omitted⟩ where
  name := rfl
  required := needed
  read seen tree text := by
    change (reader tree).map _ = _
    rw [reads tree text, ← puts seen, Except.map]

section Structure

variable {σ : Type} {mix : List String → σ} {fields : List (Field σ)} {slots : List Slot}
  (fits : List.Forall₂ (Field.Fits mix) fields slots) (distinct : (slots.map (·.name)).Nodup)
include fits distinct

theorem fieldFound {slot : Slot} (among : slot ∈ slots) :
    ∃ field, fields.find? (·.name = slot.name) = some field ∧ field.Fits mix slot := by
  induction fits with
  | nil => cases among
  | @cons field other fields slots fit fits ih =>
    rw [List.map_cons, List.nodup_cons] at distinct
    rcases List.mem_cons.mp among with rfl | among
    · exact ⟨field, List.find?_cons_of_pos (by simp [fit.name]), fit⟩
    · obtain ⟨found, here, known⟩ := ih distinct.2 among
      have different : field.name ≠ slot.name := by
        rw [fit.name]
        exact fun same => distinct.1 (same ▸ List.mem_map_of_mem among)
      exact ⟨found, by rw [List.find?_cons_of_neg (by simpa using different), here], known⟩

theorem entriesReader {entries : List (String × Json)} {seen : List String} (fresh : (entries.map (·.1)).Nodup)
    (new : ∀ entry ∈ entries, entry.1 ∉ seen)
    (known : ∀ entry ∈ entries, ∃ slot ∈ slots, slot.name = entry.1 ∧ slot.spelled entry.2) :
    readEntries fields seen (entries.map fun entry => (some entry.1, entry.2)) (mix seen) =
      .ok ((entries.map (·.1)).reverse ++ seen, mix ((entries.map (·.1)).reverse ++ seen)) := by
  induction entries generalizing seen with
  | nil => rfl
  | cons entry entries ih =>
    obtain ⟨slot, among, named, spelled⟩ := known entry List.mem_cons_self
    obtain ⟨field, found, fit⟩ := fieldFound fits distinct among
    rw [List.map_cons, List.nodup_cons] at fresh
    have still : ∀ other ∈ entries, other.1 ∉ entry.1 :: seen := by
      intro other later again
      rcases List.mem_cons.mp again with same | before
      · exact fresh.1 (same ▸ List.mem_map_of_mem later)
      · exact new other (List.mem_cons_of_mem entry later) before
    rw [named] at found
    rw [List.map_cons, readEntries, found]
    simp only [if_neg (new entry List.mem_cons_self), fit.read seen entry.2 spelled, named]
    refine (ih fresh.2 still fun other later => known other (List.mem_cons_of_mem entry later)).trans ?_
    simp only [List.map_cons, List.reverse_cons, List.append_assoc, List.singleton_append]

theorem structureReader {start value : σ} {tree : Json} (object : IsObject slots tree) (empty : mix [] = start)
    (full : ∀ seen, (∀ slot ∈ slots, slot.omitted ∨ slot.name ∈ seen) → mix seen = value) :
    readStructure fields start tree = .ok value := by
  obtain ⟨entries, filled, rfl⟩ := object
  have read := entriesReader fits distinct filled.once (fun _ _ => List.not_mem_nil) filled.known
  rw [List.append_nil, empty] at read
  have complete :
      fields.any (fun field => field.required && !(entries.map (·.1)).reverse.contains field.name) = false := by
    rw [List.any_eq_false]
    intro field among missing
    obtain ⟨slot, listed, fit⟩ := Result.forallMem fits.flip field among
    rw [Bool.and_eq_true, Bool.not_eq_true', List.contains_eq_mem, decide_eq_false_iff_not, List.mem_reverse,
      fit.name] at missing
    exact (filled.given slot listed).elim (fit.required missing.1) missing.2
  have whole := full (entries.map (·.1)).reverse fun slot listed =>
    (filled.given slot listed).imp id List.mem_reverse.mpr
  rw [readStructure, read]
  simp only [stopped, bind, Except.bind, complete, whole]
  rfl

end Structure

namespace Fills

variable {slots : List Slot} {entries : List (String × Json)} (filled : Fills slots entries)
include filled

theorem spelledAs (distinct : (slots.map (·.name)).Nodup) {slot : Slot} (among : slot ∈ slots) {item : Json}
    (entry : (slot.name, item) ∈ entries) : slot.spelled item := by
  obtain ⟨other, listed, same, spelled⟩ := filled.known (slot.name, item) entry
  rwa [← List.inj_on_of_nodup_map distinct listed among same]

theorem split (distinct : (slots.map (·.name)).Nodup) {slot : Slot} (among : slot ∈ slots) :
    slot.omitted ∧ slot.name ∉ entries.map (·.1) ∨
      ∃ front item back, entries = front ++ (slot.name, item) :: back ∧ slot.spelled item ∧
        ∀ entry ∈ front ++ back, entry.1 ≠ slot.name := by
  by_cases listed : slot.name ∈ entries.map (·.1)
  · obtain ⟨⟨name, item⟩, here, same⟩ := List.mem_map.mp listed
    obtain rfl : name = slot.name := same
    have spelled := filled.spelledAs distinct among here
    obtain ⟨front, back, rfl⟩ := List.append_of_mem here
    refine .inr ⟨front, item, back, rfl, spelled, fun entry other again => ?_⟩
    have once := filled.once
    rw [List.map_append, List.map_cons, List.nodup_middle, List.nodup_cons, ← List.map_append] at once
    exact once.1 (again ▸ List.mem_map_of_mem (f := (·.1)) other)
  · exact .inl ⟨(filled.given slot among).resolve_right listed, listed⟩

end Fills

theorem Fills.without {slot : Slot} {slots : List Slot} {front back : List (String × Json)} {item : Json}
    (filled : Fills (slot :: slots) (front ++ (slot.name, item) :: back))
    (distinct : ((slot :: slots).map (·.name)).Nodup) (others : ∀ entry ∈ front ++ back, entry.1 ≠ slot.name) :
    Fills slots (front ++ back) where
  once := by
    have once := filled.once
    rw [List.map_append, List.map_cons, List.nodup_middle, List.nodup_cons, ← List.map_append] at once
    exact once.2
  known entry among := by
    have listed : entry ∈ front ++ (slot.name, item) :: back := by
      rw [List.mem_append, List.mem_cons]
      exact (List.mem_append.mp among).imp id .inr
    obtain ⟨other, known, same, spelled⟩ := filled.known entry listed
    rcases List.mem_cons.mp known with rfl | known
    · exact absurd same.symm (others entry among)
    · exact ⟨other, known, same, spelled⟩
  given other among := by
    rw [List.map_cons, List.nodup_cons] at distinct
    have different : other.name ≠ slot.name := fun same => distinct.1 (same ▸ List.mem_map_of_mem among)
    refine (filled.given other (List.mem_cons_of_mem slot among)).imp id fun listed => ?_
    simpa [different] using listed

end Json

end CircuitSim
