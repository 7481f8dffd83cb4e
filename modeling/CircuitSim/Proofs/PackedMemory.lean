import CircuitSim.Proofs.Primitive

/-! A memory is an array of words. Whatever its update code is run on, word after word holds what was last written to
it, at its own bits of the slice, and reading gives that back. Main statement: `memoryArray`. -/
namespace CircuitSim

structure Write where
  address : Nat
  data : Nat
  enable : Nat
  /-- The address at the read port, which an update does not look at. -/
  read : Nat
  deriving DecidableEq, Repr

namespace Write

def pin (write : Write) : Nat → Nat
  | 0 => write.address
  | 1 => write.data
  | 2 => write.enable
  | _ => write.read

def InRange (write : Write) (width depth : Nat) : Prop :=
  write.address < 2 ^ Width.address depth ∧ write.data < 2 ^ width ∧ write.enable < 2 ∧
    write.read < 2 ^ Width.address depth

instance (write : Write) (width depth : Nat) : Decidable (write.InRange width depth) :=
  inferInstanceAs (Decidable (_ ∧ _ ∧ _ ∧ _))

def last (depth : Nat) (writes : List Write) (address : Nat) : Nat :=
  ((writes.reverse.find? fun write => write.enable = 1 ∧ write.address % depth = address % depth).map (·.data)).getD 0

theorem lastAfter (depth : Nat) (writes : List Write) (write : Write) (address : Nat) :
    last depth (writes ++ [write]) address =
      if write.enable = 1 ∧ write.address % depth = address % depth then write.data else last depth writes address := by
  unfold last
  rw [List.reverse_append, List.reverse_singleton, List.singleton_append, List.find?_cons]
  by_cases hit : write.enable = 1 ∧ write.address % depth = address % depth
  · simp only [hit, and_self, decide_true, if_true, Option.map_some, Option.getD_some]
  · simp only [hit, decide_false, if_false]

theorem lastWraps (depth : Nat) (writes : List Write) (address : Nat) :
    last depth writes (address % depth) = last depth writes address := by
  unfold last
  rw [Nat.mod_mod]

end Write

namespace Emit

variable {α : Type} {context : Context} {allowed : Access → Prop} {frame : Frame} {memory : Memory}

theorem Meets.always {e : Emit α} {post : α → Frame → Memory → Prop} (meets : Meets context allowed e frame memory post)
    {result : α} {reached : Reached} (runs : Runs context e frame memory result reached) :
    post result reached.frame reached.memory := by
  obtain ⟨result', reached', ⟨code', emitted', ran'⟩, -, holds⟩ := meets
  obtain ⟨code, emitted, ran⟩ := runs
  have same := Except.ok.inj (emitted'.symm.trans emitted)
  obtain rfl : result' = result := congrArg Written.result same
  obtain rfl : code' = code := congrArg Written.code same
  obtain rfl : reached' = reached := Except.ok.inj (ran'.symm.trans ran)
  exact holds

end Emit

namespace Primitive
open Emit

/- Updates of one memory, each emitted and run in a frame of its own that holds its pins and points to the state. -/
inductive Updated (width depth block offset : Nat) (first : Memory) : List Write → Memory → Prop
  | nil : Updated width depth block offset first [] first
  | snoc {writes : List Write} {write : Write} {before : Memory} {context : Context} {frame : Frame} {state : Ref}
      {refs : List Ref} {reached : Reached} (earlier : Updated width depth block offset first writes before)
      (points : frame.Holds state (.address block offset))
      (fed : ∀ k < 4, frame.Holds (refs.getD k 0) (.number (write.pin k)))
      (ran : Runs context ((mem width depth).update refs state) frame before () reached) :
      Updated width depth block offset first (writes ++ [write]) reached.memory

structure Words (width depth offset : Nat) (before data : Bytes) (word : Nat → Nat) : Prop where
  size : data.size = before.size
  own : ∀ k < depth, data.field (8 * offset + k * width) width = word k
  around : ∀ bit, bit < 8 * offset ∨ 8 * offset + depth * width ≤ bit → data.bit bit = before.bit bit

section Slices

variable {width depth block offset : Nat}

theorem pinsFit {write : Write} (fits : write.InRange width depth) :
    (mem width depth).Fits write.pin (mem width depth).pins := by
  obtain ⟨address, data, enable, read⟩ := fits
  intro k mem pin known
  have inside : k < 4 := by simpa [pins, inputs] using mem
  obtain rfl | rfl | rfl | rfl : k = 0 ∨ k = 1 ∨ k = 2 ∨ k = 3 := by omega
  · cases known
    exact address
  · cases known
    exact data
  · cases known
    exact enable
  · cases known
    exact read

variable (valid : (mem width depth).Valid)
include valid

theorem wordsZero {data : Bytes} (zeroed : data.field (8 * offset) (8 * (mem width depth).stateBytes) = 0) :
    Words width depth offset data data fun _ => 0 := by
  refine ⟨rfl, fun k inside => ?_, fun _ _ => rfl⟩
  have bound : k * width + width ≤ 8 * (mem width depth).stateBytes := wordInside valid inside
  have shifted := @Bytes.fieldShift data (8 * offset) _ _ _ bound
  rw [zeroed, Nat.zero_shiftRight, Nat.zero_mod] at shifted
  exact shifted.symm

theorem wordsAdvance {before data : Bytes} {word : Nat → Nat} (words : Words width depth offset before data word)
    (room : offset + (mem width depth).stateBytes ≤ before.size) {write : Write} (fits : write.InRange width depth) :
    Words width depth offset before ((mem width depth).advance data offset write.pin) fun k =>
      if write.enable = 1 ∧ k = write.address % depth then write.data else word k := by
  have inside : offset + (mem width depth).stateBytes ≤ data.size := words.size ▸ room
  refine ⟨advanceSize.trans words.size, fun k known => ?_, fun bit out => ?_⟩
  · have next := advanceWord valid inside (pinsFit fits) k
    rw [← words.own k known]
    exact next
  · rw [← words.around bit out]
    refine advanceOutside valid inside fun c changes covers => ?_
    simp only [change] at changes
    split at changes
    · cases changes
      have bound := @elementInside width _ _ (Nat.mod_lt write.address valid.2.2.1)
      obtain ⟨low, high⟩ := covers
      simp only [Write.pin] at low high
      rw [Nat.mul_comm width depth] at bound
      omega
    · cases changes

section Steps

variable {context : Context} {frame : Frame} {memory : Memory} {state : Ref} {refs : List Ref} {data : Bytes}
  (here : memory[block]? = some data) (room : offset + (mem width depth).stateBytes + 1 ≤ data.size)
  (points : frame.Holds state (.address block offset))
include here room points

theorem writeLeaves {write : Write} (fits : write.InRange width depth)
    (fed : ∀ k < 4, frame.Holds (refs.getD k 0) (.number (write.pin k))) :
    Leaves context (fun access => access.Within block offset (offset + (mem width depth).stateBytes + 1))
      ((mem width depth).update refs state) frame memory
      (memory.setIfInBounds block ((mem width depth).advance data offset write.pin)) := by
  refine updateLeaves valid ⟨points, here, room⟩ (fun _ _ within => within) (pinsFit fits) fun k pin known => ?_
  obtain ⟨inside, -⟩ := List.getElem?_eq_some_iff.mp known
  exact fed k inside

theorem readGives {address : Nat} (small : address < 2 ^ Width.address depth)
    (fed : frame.Holds (refs.getD 0 0) (.number address)) :
    Gives context (fun access => access.Within block offset (offset + (mem width depth).stateBytes + 1))
      ((mem width depth).compute refs state) frame memory
      (.number (data.field (8 * offset + address % depth * width) width)) := by
  refine @computeGives context _ frame memory state _ block offset data (fun _ => address) valid ⟨points, here, room⟩
    (fun _ _ within => within) refs (fun k mem pin known => ?_) fun j k read => ?_
  · obtain rfl : k = 3 := List.mem_singleton.mp mem
    cases known
    exact small
  · obtain ⟨inside, -⟩ := List.getElem?_eq_some_iff.mp read
    obtain rfl : j = 0 := Nat.lt_one_iff.mp inside
    exact fed

end Steps

theorem updatedWords {data : Bytes} {memory memory' : Memory} (here : memory[block]? = some data)
    (room : offset + (mem width depth).stateBytes + 1 ≤ data.size)
    (zeroed : data.field (8 * offset) (8 * (mem width depth).stateBytes) = 0) {writes : List Write}
    (fit : ∀ write ∈ writes, write.InRange width depth)
    (updated : Updated width depth block offset memory writes memory') :
    ∃ data', memory'[block]? = some data' ∧ Words width depth offset data data' (Write.last depth writes) := by
  induction updated with
  | nil => exact ⟨data, here, wordsZero valid zeroed⟩
  | @snoc writes write before context frame state refs reached earlier points fed ran ih =>
    obtain ⟨data', here', words⟩ := ih fun write mem => fit write (List.mem_append_left _ mem)
    have fits : write.InRange width depth := fit write (by simp)
    have room' : offset + (mem width depth).stateBytes + 1 ≤ data'.size := words.size ▸ room
    have left := (writeLeaves valid here' room' points fits fed).always ran
    have next := wordsAdvance valid words (Nat.le_of_succ_le room) fits
    refine ⟨_, left ▸ Memory.blockSet here' _, next.size, fun k known => ?_, next.around⟩
    rw [next.own k known, Write.lastAfter, Nat.mod_eq_of_lt known]
    exact if_congr (and_congr_right' eq_comm) rfl rfl

theorem strideWhole {i stride : Nat} (inside : i < depth) (le : stride ≤ width) :
    Word.binary .mul 64 i stride = i * stride := by
  have bound := @elementInside width depth i inside
  have near := valid.2.2.2.1
  have less : i * stride ≤ i * width := Nat.mul_le_mul_left i le
  rw [Word.mulEq (by decide), Nat.mod_eq_of_lt (by omega)]

theorem elementMeets {context : Context} {allowed : Access → Prop} {frame : Frame} {memory : Memory} {base index : Ref}
    {data : Bytes} {i : Nat} (here : memory[block]? = some data)
    (room : offset + (mem width depth).stateBytes + 1 ≤ data.size) (points : frame.Holds base (.address block offset))
    (held : frame.Holds index (.number i)) (inside : i < depth) :
    Meets context allowed (elementAddress base index width) frame memory fun place frame' memory' =>
      memory' = memory ∧ ∃ byte bit, 8 * byte + bit = i * width ∧ bit < 8 ∧
        frame'.Holds place.1 (.address block (offset + byte : Nat)) ∧
          ((place.2 = none ∧ bit = 0) ∨ ∃ shift, place.2 = some shift ∧ frame'.Holds shift (.number bit)) := by
  have elements := memElements valid ⟨points, here, room⟩
  by_cases whole : width % 8 = 0
  · refine (wholeAddress elements held inside whole).mono ?_
    rintro place frame' memory' - ⟨same, none, points'⟩
    refine ⟨same, i * (width / 8), 0, ?_, by decide, points', .inl ⟨none, rfl⟩⟩
    rw [Nat.add_zero, Nat.mul_left_comm, Nat.mul_div_cancel' (Nat.dvd_of_mod_eq_zero whole)]
  · refine (shiftedAddress elements held inside whole).mono ?_
    rintro place frame' memory' - ⟨same, shift, some, shifted⟩
    exact ⟨same, i * width / 8, i * width % 8, Nat.div_add_mod _ 8, Nat.mod_lt _ (by decide), shifted.held,
      .inr ⟨shift, some, shifted.amount⟩⟩

end Slices

def remainderIndex (address : Ref) (depth : Nat) : Emit Ref := do
  let index ← Emit.resize address (Width.address depth) 64
  Emit.urem 64 index depth

theorem remainderGives {context : Context} {allowed : Access → Prop} {frame : Frame} {memory : Memory} {address : Ref}
    {a depth : Nat} (given : frame.Holds address (.number a)) (small : a < 2 ^ Width.address depth)
    (positive : 0 < depth) (near : depth < 2 ^ 34) :
    Gives context allowed (remainderIndex address depth) frame memory (.number (a % depth)) := by
  have wide : a < 2 ^ 34 := Nat.lt_of_lt_of_le small (Nat.pow_le_pow_right (by decide) (addressSmall near))
  apply Gives.bind (resizeGives given (by decide) small)
  intro index frame' grows held
  rw [Nat.mod_eq_of_lt (by omega)] at held
  exact uremGives held (by decide) positive (by omega)

/- The index of every address is below the depth, whichever way it is taken, and counting bits never wraps. -/
structure Indexes (width depth : Nat) : Prop where
  bounded : ∀ (context : Context) (allowed : Access → Prop) (frame : Frame) (memory : Memory) (ref : Ref) (address : Nat),
    frame.Holds ref (.number address) → address < 2 ^ Width.address depth → address % depth < depth ∧
      Gives context allowed (boundedIndex ref depth) frame memory (.number (address % depth)) ∧
      Gives context allowed (remainderIndex ref depth) frame memory (.number (address % depth))
  strides : ∀ i < depth, ∀ stride ≤ width, Word.binary .mul 64 i stride = i * stride

/- A slice that behaves as an array of words: word `i` is at bit `i * width`, code reads it and code can update it. -/
structure ActsAs (width depth block offset : Nat) (before : Bytes) (memory : Memory) (word : Nat → Nat) : Prop where
  words : ∃ data, memory[block]? = some data ∧ Words width depth offset before data word
  address : ∀ (context : Context) (allowed : Access → Prop) (frame : Frame) (base index : Ref) (i : Nat),
    frame.Holds base (.address block offset) → frame.Holds index (.number i) → i < depth →
      Meets context allowed (elementAddress base index width) frame memory fun place frame' memory' =>
        memory' = memory ∧ ∃ byte bit, 8 * byte + bit = i * width ∧ bit < 8 ∧
          frame'.Holds place.1 (.address block (offset + byte : Nat)) ∧
            ((place.2 = none ∧ bit = 0) ∨ ∃ shift, place.2 = some shift ∧ frame'.Holds shift (.number bit))
  read : ∀ (context : Context) (frame : Frame) (state : Ref) (refs : List Ref) (address : Nat),
    frame.Holds state (.address block offset) → frame.Holds (refs.getD 0 0) (.number address) →
      address < 2 ^ Width.address depth →
        Gives context (fun access => access.Within block offset (offset + (mem width depth).stateBytes + 1))
          ((mem width depth).compute refs state) frame memory (.number (word address))
  update : ∀ (context : Context) (frame : Frame) (state : Ref) (refs : List Ref) (write : Write),
    frame.Holds state (.address block offset) → (∀ k < 4, frame.Holds (refs.getD k 0) (.number (write.pin k))) →
      write.InRange width depth → ∃ reached, Runs context ((mem width depth).update refs state) frame memory () reached

/-- A memory that starts with zeros is an array: after any updates, a read gives what was last written to the word
that its address wraps to, or zero. The updates that have been run can go on with any other one. -/
theorem memoryArray (g : Generator) (width depth : Nat) (accepted : Constructor.mem g = .ok (mem width depth))
    (block offset : Nat) (memory : Memory) (data : Bytes) (here : memory[block]? = some data)
    (room : offset + (mem width depth).stateBytes + 1 ≤ data.size)
    (zeroed : data.field (8 * offset) (8 * (mem width depth).stateBytes) = 0) (writes : List Write)
    (fit : ∀ write ∈ writes, write.InRange width depth) (memory' : Memory)
    (updated : Updated width depth block offset memory writes memory') :
    Indexes width depth ∧ ActsAs width depth block offset data memory' (Write.last depth writes) := by
  have valid := memValid accepted
  have positive := valid.2.2.1
  have near := depthNear valid
  obtain ⟨data', here', words⟩ := updatedWords valid here room zeroed fit updated
  have room' : offset + (mem width depth).stateBytes + 1 ≤ data'.size := words.size ▸ room
  refine ⟨⟨fun context allowed frame memory ref address held small => ?_, fun i inside stride le => ?_⟩,
    ⟨data', here', words⟩, fun context allowed frame base index i points held inside => ?_,
    fun context frame state refs address points fed small => ?_, fun context frame state refs write points fed fits => ?_⟩
  · exact ⟨Nat.mod_lt _ positive, boundedGives held small positive near, remainderGives held small positive near⟩
  · exact strideWhole valid inside le
  · exact elementMeets valid here' room' points held inside
  · have given : Gives context _ _ _ _ _ := readGives valid here' room' points small fed
    rw [words.own _ (Nat.mod_lt _ positive), Write.lastWraps] at given
    exact given
  · have left : Leaves context _ _ _ _ _ := writeLeaves valid here' room' points fits fed
    obtain ⟨⟨⟩, reached, runs, -⟩ := left
    exact ⟨reached, runs⟩

theorem wideMemoryArray : ∃ memory', Updated 123 3 0 1 #[#[255] ++ Array.replicate 47 0 ++ #[255]]
    [⟨3, 2 ^ 122 + 5, 1, 0⟩, ⟨1, 2 ^ 123 - 1, 1, 2⟩, ⟨0, 7, 0, 1⟩] memory' ∧
    Gives .bare (fun access => access.Within 0 1 (1 + (mem 123 3).stateBytes + 1))
      ((mem 123 3).compute [1] 0) ⟨[], #[.address 0 1, .number 0]⟩ memory' (.number (2 ^ 122 + 5)) := by
  have array := memoryArray ⟨"mem", "m", [("width", 123), ("depth", 3)]⟩ 123 3 rfl 0 1
    #[#[255] ++ Array.replicate 47 0 ++ #[255]] _ rfl (by decide +kernel) (by decide +kernel)
  have next : ∀ {writes write before}, (∀ other ∈ writes ++ [write], other.InRange 123 3) →
      Updated 123 3 0 1 #[#[255] ++ Array.replicate 47 0 ++ #[255]] writes before →
      ∃ after, Updated 123 3 0 1 #[#[255] ++ Array.replicate 47 0 ++ #[255]] (writes ++ [write]) after := by
    intro writes write before fit earlier
    have acts := (array writes (fun other mem => fit other (List.mem_append_left _ mem)) before earlier).2
    let frame : Frame := ⟨[], #[.address 0 1, .number write.address, .number write.data, .number write.enable,
      .number write.read]⟩
    have fed : ∀ k < 4, frame.Holds ([1, 2, 3, 4].getD k 0) (.number (write.pin k)) := by
      intro k inside
      match k, inside with
      | 0, _ | 1, _ | 2, _ | 3, _ => rfl
    have points : frame.Holds 0 (.address 0 1) := rfl
    obtain ⟨reached, ran⟩ := acts.update .bare frame 0 [1, 2, 3, 4] write points fed
      (fit write (by simp))
    exact ⟨_, .snoc earlier points fed ran⟩
  obtain ⟨first, one⟩ := @next [] ⟨3, 2 ^ 122 + 5, 1, 0⟩ _ (by decide +kernel) .nil
  obtain ⟨second, two⟩ := @next _ ⟨1, 2 ^ 123 - 1, 1, 2⟩ _ (by decide +kernel) one
  obtain ⟨third, three⟩ := @next _ ⟨0, 7, 0, 1⟩ _ (by decide +kernel) two
  have acts := (array _ (by decide +kernel) third three).2
  exact ⟨third, three, acts.read _ _ _ _ 0 rfl rfl (by decide)⟩

end Primitive

end CircuitSim
