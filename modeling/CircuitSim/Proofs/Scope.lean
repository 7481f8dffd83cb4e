import CircuitSim.Code.Element
import CircuitSim.Flat.Graph
import CircuitSim.Proofs.Execution

/-! Code that a machine can take. What is known of every value before the code runs: whether it is a number, of which
width, or an address, and for some numbers how large they can get. Code fits when each operation finds what it expects
among the values that are in sight, and code that fits shifts within containers only: `shiftsWithin`. -/
namespace CircuitSim

structure Known where
  shape : Param
  /- The number stays below. -/
  limit : Option Nat := none
  deriving DecidableEq, Repr

abbrev Scope := List (Option Known)

structure Signature where
  params : List Param
  callees : Nat → Option (List Param) := fun _ => none

def Param.Native : Param → Prop
  | .int width => 0 < width ∧ width ≤ 128
  | .ptr => True

namespace Scope

variable (scope : Scope)

def find? (ref : Ref) : Option Known := scope[ref]?.join

def shape? (ref : Ref) : Option Param := (scope.find? ref).map (·.shape)

def limit? (ref : Ref) : Option Nat := (scope.find? ref).bind (·.limit)

def container? (ref : Ref) : Option Nat :=
  match scope.shape? ref with
  | some (.int width) => some (Width.containerBytes width)
  | _ => none

def Holds (ref : Ref) (width : Nat) : Prop := scope.container? ref = some (Width.containerBytes width)

def Below (ref : Ref) (bound : Nat) : Prop :=
  (scope.container? ref).isSome ∧ ∃ limit, scope.limit? ref = some limit ∧ limit ≤ bound

def Passes (ref : Ref) : Param → Prop
  | .int width => scope.Holds ref width
  | .ptr => scope.shape? ref = some .ptr

end Scope

namespace Op

def Fits (signature : Signature) (scope : Scope) : Op → Prop
  | const .. | slot _ => True
  | binary _ width a b | compare _ width a b => scope.Holds a width ∧ scope.Holds b width
  | not width a => scope.Holds a width
  | select width cond a b => scope.shape? cond = some (.int 1) ∧ scope.Holds a width ∧ scope.Holds b width
  | shl width a amount | lshr width a amount => scope.Holds a width ∧ scope.Below amount (Width.containerBits width)
  | urem width a divisor => scope.Holds a width ∧ width ≤ 64 ∧ Word.wrap width divisor ≠ 0
  | resize a source _ => scope.Holds a source
  | load ptr _ bytes => scope.shape? ptr = some .ptr ∧ 0 < bytes ∧ bytes ≤ 16
  | offset ptr _ => scope.shape? ptr = some .ptr
  | index width ptr distance => scope.shape? ptr = some .ptr ∧ scope.Holds distance width
  | param i => i < signature.params.length

def known (signature : Signature) (scope : Scope) : Op → Known
  | const width n => ⟨.int width, some (n + 1)⟩
  | binary op width _ b => ⟨.int width, if op = .and then scope.limit? b else none⟩
  | not width _ | select width .. | shl width .. | lshr width .. | urem width .. => ⟨.int width, none⟩
  | compare .. => ⟨.int 1, none⟩
  | resize a _ target => ⟨.int target, scope.limit? a⟩
  | load _ _ bytes => ⟨.int (bytes * 8), none⟩
  | offset .. | index .. | slot _ => ⟨.ptr, none⟩
  | param i => ⟨signature.params.getD i .ptr, none⟩

def shifts (frame : Frame) : Op → List (Nat × Nat)
  | shl width _ amount | lshr width _ amount => [(width, frame.bits amount)]
  | _ => []

end Op

namespace Code

def after (signature : Signature) (scope : Scope) : Code → Scope
  | done => scope
  | define op rest => rest.after signature (scope ++ [some (op.known signature scope)])
  | store _ _ _ _ rest | call _ _ rest => rest.after signature scope
  | branch _ body rest => rest.after signature (scope ++ List.replicate body.values none)

def Fits (signature : Signature) (scope : Scope) : Code → Prop
  | done => True
  | define op rest =>
    op.Fits signature scope ∧ (op.known signature scope).shape.Native ∧
      rest.Fits signature (scope ++ [some (op.known signature scope)])
  | store arg ptr _ bytes rest =>
    (scope.Holds arg (bytes * 8) ∧ scope.shape? ptr = some .ptr ∧ 0 < bytes ∧ bytes ≤ 16) ∧ rest.Fits signature scope
  | call function args rest =>
    (∃ params, signature.callees function = some params ∧ List.Forall₂ scope.Passes args params) ∧
      rest.Fits signature scope
  | branch cond body rest =>
    scope.shape? cond = some (.int 1) ∧ body.Fits signature scope ∧
      rest.Fits signature (scope ++ List.replicate body.values none)

def shifts (context : Context) : Code → Frame → Memory → List (Nat × Nat)
  | done, _, _ => []
  | define op rest, frame, memory =>
    op.shifts frame ++
      match op.step context frame memory with
      | .ok (frame, memory) => rest.shifts context frame memory
      | .error _ => []
  | store arg ptr offset bytes rest, frame, memory =>
    match memory.store (frame.get ptr) offset bytes (frame.bits arg) with
    | .ok memory => rest.shifts context frame memory
    | .error _ => []
  | call function args rest, frame, memory =>
    match context.call function (args.map frame.get) memory with
    | .ok memory => rest.shifts context frame memory
    | .error _ => []
  | branch cond body rest, frame, memory =>
    if (frame.get cond).isSet then
      body.shifts context frame memory ++
        match body.run context frame memory with
        | .ok memory => rest.shifts context (frame.skip body.values) memory
        | .error _ => []
    else rest.shifts context (frame.skip body.values) memory

end Code

theorem Width.containerAgain (width : Nat) : containerBytes (containerBytes width * 8) = containerBytes width := by
  obtain same | same | same | same | same : containerBytes width = 1 ∨ containerBytes width = 2 ∨ containerBytes width = 4 ∨
      containerBytes width = 8 ∨ containerBytes width = 16 := by
    unfold containerBytes
    repeat' split
    all_goals decide
  all_goals
    rw [same]
    rfl

namespace Scope

variable {scope scope' : Scope} {ref : Ref} {shape : Param} {width bound : Nat}

theorem findInside {known : Known} (found : scope.find? ref = some known) : ref < scope.length := by
  by_contra outside
  rw [find?, List.getElem?_eq_none (Nat.not_lt.mp outside)] at found
  cases found

theorem foundShape {known : Known} (found : scope.find? ref = some known) : scope.shape? ref = some known.shape := by
  rw [shape?, found]
  rfl

theorem foundBelow {limit : Nat} (found : scope.find? ref = some ⟨.int width, some limit⟩) (le : limit ≤ bound) :
    scope.Below ref bound := by
  refine ⟨?_, limit, ?_, le⟩
  · rw [container?, foundShape found]
    rfl
  · rw [limit?, found]
    rfl

theorem findGrown (grows : scope <+: scope') {known : Known} (found : scope.find? ref = some known) :
    scope'.find? ref = some known := by
  obtain ⟨more, rfl⟩ := grows
  rw [find?, List.getElem?_append_left (findInside found)]
  exact found

theorem shapeGrown (grows : scope <+: scope') (is : scope.shape? ref = some shape) : scope'.shape? ref = some shape := by
  obtain ⟨known, found, same⟩ := Option.map_eq_some_iff.mp is
  rw [shape?, findGrown grows found]
  exact congrArg some same

theorem containerGrown (grows : scope <+: scope') {bytes : Nat} (lives : scope.container? ref = some bytes) :
    scope'.container? ref = some bytes := by
  rw [container?] at lives ⊢
  cases known : scope.shape? ref with
  | none =>
    rw [known] at lives
    cases lives
  | some shape =>
    rw [shapeGrown grows known]
    rw [known] at lives
    exact lives

theorem holdsGrown (grows : scope <+: scope') (holds : scope.Holds ref width) : scope'.Holds ref width :=
  containerGrown grows holds

theorem belowGrown (grows : scope <+: scope') (below : scope.Below ref bound) : scope'.Below ref bound := by
  obtain ⟨number, limit, known, le⟩ := below
  obtain ⟨bytes, lives⟩ := Option.isSome_iff_exists.mp number
  obtain ⟨entry, found, same⟩ := Option.bind_eq_some_iff.mp known
  refine ⟨by rw [containerGrown grows lives]; rfl, limit, ?_, le⟩
  rw [limit?, findGrown grows found]
  exact same

theorem shapeHolds (is : scope.shape? ref = some (.int width)) : scope.Holds ref width := by
  rw [Holds, container?, is]

theorem holdsContainer : scope.Holds ref (Width.containerBytes width * 8) ↔ scope.Holds ref width := by
  rw [Holds, Holds, Width.containerAgain]

theorem shapePasses (is : scope.shape? ref = some shape) : scope.Passes ref shape := by
  cases shape with
  | int width => exact shapeHolds is
  | ptr => exact is

structure Bounds (scope : Scope) (frame : Frame) : Prop where
  size : frame.values.size = scope.length
  below : ∀ ref limit, scope.limit? ref = some limit → frame.bits ref < limit

theorem Bounds.start (params : List Value) : Bounds [] (.ofParams params) := ⟨rfl, nofun⟩

theorem Bounds.within {frame : Frame} (bounds : scope.Bounds frame) (below : scope.Below ref bound) :
    frame.bits ref < bound := by
  obtain ⟨-, limit, known, le⟩ := below
  exact Nat.lt_of_lt_of_le (bounds.below ref limit known) le

theorem Bounds.skip {frame : Frame} (bounds : scope.Bounds frame) (count : Nat) :
    Bounds (scope ++ List.replicate count none) (frame.skip count) := by
  obtain ⟨size, below⟩ := bounds
  refine ⟨by simp [Frame.skip, size], fun ref limit known => ?_⟩
  by_cases inside : ref < scope.length
  · rw [limit?, find?, List.getElem?_append_left inside] at known
    have same : (frame.skip count).bits ref = frame.bits ref := by
      simp [Frame.bits, Frame.get, Frame.skip, Array.getD_eq_getD_getElem?, Array.getElem?_append_left, size, inside]
    rw [same]
    exact below ref limit known
  · rw [limit?, find?, List.getElem?_append_right (Nat.not_lt.mp inside), List.getElem?_replicate] at known
    split at known <;> cases known

theorem Bounds.push {frame : Frame} (bounds : scope.Bounds frame) {known : Known} {value : Value}
    (fits : ∀ limit, known.limit = some limit → value.bits < limit) :
    Bounds (scope ++ [some known]) (frame.push value) := by
  obtain ⟨size, below⟩ := bounds
  refine ⟨by simp [Frame.push, size], fun ref limit bounded => ?_⟩
  obtain ⟨entry, found, same⟩ := Option.bind_eq_some_iff.mp bounded
  have inside := findInside found
  rw [List.length_append, List.length_singleton] at inside
  rcases Nat.lt_succ_iff_lt_or_eq.mp inside with before | rfl
  · rw [find?, List.getElem?_append_left before] at found
    have kept : (frame.push value).bits ref = frame.bits ref := by
      have other : ref ≠ frame.values.size := size ▸ Nat.ne_of_lt before
      simp [Frame.bits, Frame.get, Frame.push, Array.getD_eq_getD_getElem?, Array.getElem?_push, other]
    rw [kept]
    exact below ref limit (Option.bind_eq_some_iff.mpr ⟨entry, found, same⟩)
  · rw [find?, List.getElem?_concat_length] at found
    obtain rfl := Option.some.inj found
    rw [← size, Frame.bits, Frame.getHeld (frame.pushHolds value)]
    exact fits limit same

end Scope

theorem Word.resizeLe (source target n : Nat) : resize source target n ≤ n := by
  have wrapped (width n : Nat) : wrap width n ≤ n := Nat.mod_le _ _
  unfold resize
  split
  · refine Nat.le_trans ?_ (wrapped target n)
    unfold truncate
    simp only
    split
    · exact Nat.le_refl _
    · split
      · exact Nat.and_le_left
      · -- what is shifted up and down again has lost bits only
        rw [Nat.shiftRight_eq_div_pow]
        refine Nat.div_le_of_le_mul ((wrapped _ _).trans ?_)
        rw [Nat.shiftLeft_eq, Nat.mul_comm]
  · exact wrapped target n

theorem Op.stepBounds {context : Context} {op : Op} {signature : Signature} {scope : Scope} {frame frame' : Frame} {memory memory' : Memory}
    (bounds : scope.Bounds frame) (ok : op.step context frame memory = .ok (frame', memory')) :
    Scope.Bounds (scope ++ [some (op.known signature scope)]) frame' := by
  obtain ⟨value, rfl, fits⟩ : ∃ value, frame' = frame.push value ∧
      ∀ limit, (op.known signature scope).limit = some limit → value.bits < limit := by
    cases op with
    | const width n =>
      cases ok
      refine ⟨_, rfl, fun limit same => ?_⟩
      cases same
      exact Nat.lt_succ_of_le Nat.and_le_left
    | binary op width a b =>
      cases ok
      refine ⟨_, rfl, fun limit known => ?_⟩
      cases op with
      | and => exact Nat.lt_of_le_of_lt Nat.and_le_right (bounds.below b limit known)
      | add | sub | mul | or | xor => cases known
    | resize a source target =>
      cases ok
      exact ⟨_, rfl, fun limit known => Nat.lt_of_le_of_lt (Word.resizeLe _ _ _) (bounds.below a limit known)⟩
    | not | compare | select | shl | lshr | urem | load | offset | index | slot | param =>
      obtain ⟨value, same⟩ := Op.stepPush ok
      exact ⟨value, same, nofun⟩
  exact bounds.push fits

namespace Code

variable {signature : Signature} {scope : Scope} {a b : Code}

theorem afterGrows (signature : Signature) (scope : Scope) (code : Code) : scope <+: code.after signature scope := by
  induction code generalizing scope with
  | done => exact List.prefix_refl scope
  | define op rest ih => exact (List.prefix_append _ _).trans (ih _)
  | store arg ptr offset bytes rest ih => exact ih scope
  | call function args rest ih => exact ih scope
  | branch cond body rest _ ih => exact (List.prefix_append _ _).trans (ih _)

theorem afterAppend : (a ++ b).after signature scope = b.after signature (a.after signature scope) := by
  induction a generalizing scope with
  | done => rfl
  | define op rest ih => exact ih
  | store arg ptr offset bytes rest ih => exact ih
  | call function args rest ih => exact ih
  | branch cond body rest _ ih => exact ih

theorem fitsAppend (first : a.Fits signature scope) (second : b.Fits signature (a.after signature scope)) :
    (a ++ b).Fits signature scope := by
  induction a generalizing scope with
  | done => exact second
  | define op rest ih => exact ⟨first.1, first.2.1, ih first.2.2 second⟩
  | store arg ptr offset bytes rest ih => exact ⟨first.1, ih first.2 second⟩
  | call function args rest ih => exact ⟨first.1, ih first.2 second⟩
  | branch cond body rest _ ih => exact ⟨first.1, first.2.1, ih first.2.2 second⟩

theorem afterLength (code : Code) : (code.after signature scope).length = scope.length + code.values := by
  induction code generalizing scope with
  | done => rfl
  | define op rest ih => rw [after, ih, values, List.length_append, List.length_singleton]; omega
  | store arg ptr offset bytes rest ih => exact ih
  | call function args rest ih => exact ih
  | branch cond body rest _ ih => rw [after, ih, values, List.length_append, List.length_replicate]; omega

theorem shiftsWithin {code : Code} (fits : code.Fits signature scope) {frame : Frame} (bounds : scope.Bounds frame)
    (context : Context) (memory : Memory) :
    ∀ shift ∈ code.shifts context frame memory, shift.2 < Width.containerBits shift.1 := by
  induction code generalizing scope frame memory with
  | done => exact nofun
  | define op rest ih =>
    obtain ⟨expects, -, behind⟩ := fits
    intro shift mem
    rcases List.mem_append.mp mem with own | later
    · cases op with
      | shl width arg amount | lshr width arg amount =>
        obtain rfl := List.mem_singleton.mp own
        exact bounds.within expects.2
      | const | binary | not | compare | select | urem | resize | load | offset | index | slot | param => cases own
    · split at later
      · rename_i ran
        exact ih behind (Op.stepBounds bounds ran) _ shift later
      · cases later
  | store arg ptr offset bytes rest ih =>
    intro shift mem
    rw [shifts] at mem
    split at mem
    · exact ih fits.2 bounds _ shift mem
    · cases mem
  | call function args rest ih =>
    intro shift mem
    rw [shifts] at mem
    split at mem
    · exact ih fits.2 bounds _ shift mem
    · cases mem
  | branch cond body rest ihBody ih =>
    obtain ⟨-, inner, behind⟩ := fits
    have skipped := bounds.skip body.values
    intro shift mem
    rw [shifts] at mem
    split at mem
    · rcases List.mem_append.mp mem with inside | later
      · exact ihBody inner bounds _ shift inside
      · split at later
        · exact ih behind skipped _ shift later
        · cases later
    · exact ih behind skipped _ shift mem

end Code

end CircuitSim
