import CircuitSim.Proofs.Field
import CircuitSim.Proofs.Primitive
import CircuitSim.Proofs.Scope

/-! The code that is emitted fits, piece by piece: for fields, for elements and for primitives. -/
namespace CircuitSim

namespace Emit

variable {α β : Type} {signature : Signature} {scope : Scope}

/- Emitted where `scope` is known, `e` writes code that fits, and its result is as stated where the code ends. -/
def Checks (signature : Signature) (scope : Scope) (e : Emit α) (post : Scope → α → Prop) : Prop :=
  ∃ written, e scope.length = .ok written ∧ written.code.Fits signature scope ∧
    (written.code.after signature scope).length = written.next ∧ post (written.code.after signature scope) written.result

def Makes (signature : Signature) (scope : Scope) (e : Emit Ref) (shape : Param) : Prop :=
  Checks signature scope e fun scope' ref => scope'.shape? ref = some shape

variable {e : Emit α} {post : Scope → β → Prop}

theorem Checks.pure {result : β} (holds : post scope result) : Checks signature scope (Pure.pure result) post :=
  ⟨⟨result, .done, scope.length⟩, rfl, trivial, rfl, holds⟩

theorem Checks.bind {next : α → Emit β} {mid : Scope → α → Prop} (first : Checks signature scope e mid)
    (rest : ∀ a (scope' : Scope), scope <+: scope' → mid scope' a → Checks signature scope' (next a) post) :
    Checks signature scope (e >>= next) post := by
  obtain ⟨written, emitted, fits, length, holds⟩ := first
  obtain ⟨written', emitted', fits', length', holds'⟩ := rest _ _ (Code.afterGrows _ _ _) holds
  rw [length] at emitted'
  rw [← Code.afterAppend] at length' holds'
  refine ⟨⟨written'.result, written.code ++ written'.code, written'.next⟩, ?_, Code.fitsAppend fits fits', length', holds'⟩
  simp only [Bind.bind, Emit.bind, emitted, emitted']

theorem Checks.mono {mid post : Scope → α → Prop} (checks : Checks signature scope e mid)
    (weaker : ∀ a (scope' : Scope), scope <+: scope' → mid scope' a → post scope' a) : Checks signature scope e post := by
  obtain ⟨written, emitted, fits, length, holds⟩ := checks
  exact ⟨written, emitted, fits, length, weaker _ _ (Code.afterGrows _ _ _) holds⟩

theorem Makes.bind {e : Emit Ref} {next : Ref → Emit β} {shape : Param} (first : Makes signature scope e shape)
    (rest : ∀ ref (scope' : Scope), scope <+: scope' → scope'.shape? ref = some shape → Checks signature scope' (next ref) post) :
    Checks signature scope (e >>= next) post :=
  Checks.bind first rest

theorem opChecks {o : Op} (fits : o.Fits signature scope) (native : (o.known signature scope).shape.Native) :
    Checks signature scope (op o) fun scope' ref => scope'.find? ref = some (o.known signature scope) := by
  refine ⟨⟨scope.length, .define o .done, scope.length + 1⟩, rfl, ⟨fits, native, trivial⟩, ?_, ?_⟩
  · simp [Code.after]
  · simp [Code.after, Scope.find?]

theorem opMakes {o : Op} (fits : o.Fits signature scope) (native : (o.known signature scope).shape.Native) :
    Makes signature scope (op o) (o.known signature scope).shape :=
  (opChecks fits native).mono fun _ _ _ found => Scope.foundShape found

theorem storeChecks {arg ptr : Ref} {offset : Int} {bytes : Nat} (holds : scope.Holds arg (bytes * 8))
    (points : scope.shape? ptr = some .ptr) (some : 0 < bytes) (few : bytes ≤ 16) :
    Checks signature scope (store arg ptr offset bytes) fun _ _ => True :=
  ⟨⟨(), .store arg ptr offset bytes .done, scope.length⟩, rfl, ⟨⟨holds, points, some, few⟩, trivial⟩, rfl, trivial⟩

theorem callChecks {function : Nat} {args : List Ref} {params : List Param}
    (known : signature.callees function = some params) (passed : List.Forall₂ scope.Passes args params) :
    Checks signature scope (call function args) fun _ _ => True :=
  ⟨⟨(), .call function args .done, scope.length⟩, rfl, ⟨⟨params, known, passed⟩, trivial⟩, rfl, trivial⟩

theorem branchChecks {cond : Ref} {body : Emit Unit} (bit : scope.shape? cond = some (.int 1))
    (inner : Checks signature scope body fun _ _ => True) :
    Checks signature scope (branch cond body) fun _ _ => True := by
  obtain ⟨written, emitted, fits, length, -⟩ := inner
  refine ⟨⟨(), .branch cond written.code .done, written.next⟩, by rw [branch, emitted], ⟨bit, fits, trivial⟩, ?_, trivial⟩
  rw [← length, Code.afterLength, Code.afterLength, Code.values]
  rfl

theorem mapChecks {γ : Type} {f : γ → Emit Ref} (shape : γ → Param) {xs : List γ}
    (each : ∀ x ∈ xs, ∀ scope' : Scope, scope <+: scope' → Makes signature scope' (f x) (shape x)) :
    Checks signature scope (xs.mapM f) fun scope' refs =>
      List.Forall₂ (fun ref x => scope'.shape? ref = some (shape x)) refs xs := by
  induction xs generalizing scope with
  | nil => exact .pure .nil
  | cons x xs ih =>
    rw [List.mapM_cons]
    apply Makes.bind (each x List.mem_cons_self scope (List.prefix_refl _))
    intro ref scope₁ grows₁ is
    apply Checks.bind (ih fun y mem scope' grows => each y (List.mem_cons_of_mem x mem) scope' (grows₁.trans grows))
    intro refs scope₂ grows₂ all
    exact .pure (.cons (Scope.shapeGrown grows₂ is) all)

theorem Checks.body {body : Emit Unit} {mid : Scope → Unit → Prop} (checks : Checks signature [] body mid) :
    ∃ code, body.code = .ok code ∧ code.Fits signature [] := by
  obtain ⟨written, emitted, fits, -, -⟩ := checks
  have whole : body 0 = .ok written := emitted
  exact ⟨written.code, by rw [Emit.code, whole]; rfl, fits⟩

section Operations

variable {a b : Ref} {width : Nat}

theorem constBelow {n : Nat} (bound : Nat) (native : 0 < width ∧ width ≤ 128) (small : n < bound) :
    Checks signature scope (const width n) fun scope' ref => scope'.shape? ref = some (.int width) ∧ scope'.Below ref bound :=
  (opChecks (o := .const width n) trivial native).mono fun _ _ _ found =>
    ⟨Scope.foundShape found, Scope.foundBelow found small⟩

theorem constMakes (n : Nat) (native : 0 < width ∧ width ≤ 128) : Makes signature scope (const width n) (.int width) :=
  opMakes (o := .const width n) trivial native

theorem binaryMakes (o : BinaryOp) (native : 0 < width ∧ width ≤ 128) (ha : scope.Holds a width)
    (hb : scope.Holds b width) : Makes signature scope (binary o width a b) (.int width) :=
  opMakes ⟨ha, hb⟩ native

theorem resizeMakes {source : Nat} (native : 0 < width ∧ width ≤ 128) (ha : scope.Holds a source) :
    Makes signature scope (resize a source width) (.int width) :=
  opMakes ha native

theorem andBelow {bound : Nat} (native : 0 < width ∧ width ≤ 128) (ha : scope.Holds a width) (hb : scope.Holds b width)
    (below : scope.Below b bound) : Checks signature scope (binary .and width a b) fun scope' ref =>
      scope'.shape? ref = some (.int width) ∧ scope'.Below ref bound := by
  obtain ⟨-, limit, known, le⟩ := below
  refine (opChecks (o := .binary .and width a b) ⟨ha, hb⟩ native).mono fun ref scope' _ found => ?_
  rw [Op.known, if_pos rfl, known] at found
  exact ⟨Scope.foundShape found, Scope.foundBelow found le⟩

theorem notMakes (native : 0 < width ∧ width ≤ 128) (ha : scope.Holds a width) :
    Makes signature scope (not width a) (.int width) :=
  opMakes (o := .not width a) ha native

theorem indexMakes {ptr : Ref} (points : scope.shape? ptr = some .ptr) (ha : scope.Holds a 64) :
    Makes signature scope (index 64 ptr a) .ptr :=
  opMakes (o := .index 64 ptr a) ⟨points, ha⟩ trivial

theorem resizeBelow {source bound : Nat} (native : 0 < width ∧ width ≤ 128) (ha : scope.Holds a source)
    (below : scope.Below a bound) : Checks signature scope (resize a source width) fun scope' ref => scope'.Below ref bound := by
  obtain ⟨-, limit, known, le⟩ := below
  refine (opChecks (o := .resize a source width) ha native).mono fun ref scope' _ found => ?_
  rw [Op.known, known] at found
  exact Scope.foundBelow found le

theorem shlMakes (native : 0 < width ∧ width ≤ 128) (ha : scope.Holds a width)
    (hb : scope.Below b (Width.containerBits width)) : Makes signature scope (shl width a b) (.int width) :=
  opMakes ⟨ha, hb⟩ native

theorem lshrMakes (native : 0 < width ∧ width ≤ 128) (ha : scope.Holds a width)
    (hb : scope.Below b (Width.containerBits width)) : Makes signature scope (lshr width a b) (.int width) :=
  opMakes ⟨ha, hb⟩ native

theorem loadMakes {ptr : Ref} {bytes : Nat} (offset : Int) (points : scope.shape? ptr = some .ptr) (some : 0 < bytes)
    (few : bytes ≤ 16) : Makes signature scope (load ptr offset bytes) (.int (bytes * 8)) :=
  opMakes ⟨points, some, few⟩ (show 0 < bytes * 8 ∧ bytes * 8 ≤ 128 by omega)

theorem offsetMakes {ptr : Ref} (distance : Int) (points : scope.shape? ptr = some .ptr) :
    Makes signature scope (offset ptr distance) .ptr :=
  opMakes points trivial

theorem paramMakes {i : Nat} {shape : Param} (here : signature.params[i]? = some shape) (native : shape.Native) :
    Makes signature scope (param i) shape := by
  obtain ⟨inside, -⟩ := List.getElem?_eq_some_iff.mp here
  have same : signature.params.getD i .ptr = shape := by rw [List.getD_eq_getElem?_getD, here, Option.getD_some]
  have made : Makes signature scope (param i) (signature.params.getD i .ptr) :=
    opMakes (o := .param i) inside (by rw [Op.known, same]; exact native)
  rw [same] at made
  exact made

theorem ptrMakes {i : Nat} (here : signature.params[i]? = some .ptr) : Makes signature scope (param i) .ptr :=
  paramMakes here trivial

theorem belowContainer {bound : Nat} (below : scope.Below a bound) (byte : bound ≤ 8) (width : Nat) :
    scope.Below a (Width.containerBits width) := by
  obtain ⟨number, limit, known, le⟩ := below
  have room := Width.containerBytes_pos width
  exact ⟨number, limit, known, by rw [Width.containerBits]; omega⟩

end Operations

structure Regular (field : Placement) : Prop where
  positive : 0 < field.width
  narrow : field.width ≤ 128
  storage : field.storage = Width.bytes field.width

namespace Regular

variable {field : Placement}

theorem low (field : Placement) : Regular (lowHalf field) := by
  constructor <;> simp [lowHalf, Width.half, Width.bytes]

theorem counts (regular : Regular field) : field.width + 7 < 2 ^ 32 := by
  have narrow := regular.narrow
  omega

theorem high (regular : Regular field) (wide : tooWide field) : Regular (highHalf field) := by
  have half : 64 < field.width := wide.2
  have narrow := regular.narrow
  refine ⟨?_, ?_, rfl⟩
  · exact Nat.sub_pos_of_lt half
  · exact (Nat.sub_le _ _).trans narrow

end Regular

section Halves

variable {width : Nat} (wide : 64 < width) (narrow : width ≤ 128)
include wide narrow

theorem joinMakes {low high : Ref} (hl : scope.Holds low 64) (hh : scope.Holds high (width - 64)) :
    Makes signature scope (joinHalves width low high) (.int width) := by
  have native : 0 < width ∧ width ≤ 128 := ⟨by omega, narrow⟩
  unfold joinHalves Width.half
  apply Makes.bind (resizeMakes native hl)
  intro low' scope₁ grows₁ hl'
  apply Makes.bind (resizeMakes native (Scope.holdsGrown grows₁ hh))
  intro high' scope₂ grows₂ hh'
  apply Checks.bind (constBelow _ (by decide) (Nat.lt_succ_self 64))
  rintro amount scope₃ grows₃ ⟨-, below⟩
  have room : scope₃.Below amount (Width.containerBits width) := by
    obtain ⟨number, limit, known, le⟩ := below
    exact ⟨number, limit, known, by rw [wideContainer wide]; omega⟩
  apply Makes.bind (shlMakes native (Scope.holdsGrown grows₃ (Scope.shapeHolds hh')) room)
  intro shifted scope₄ grows₄ hs
  have kept := Scope.shapeHolds (Scope.shapeGrown (grows₂.trans (grows₃.trans grows₄)) hl')
  exact binaryMakes .or native kept (Scope.shapeHolds hs)

theorem splitChecks {value : Ref} (hv : scope.Holds value width) :
    Checks signature scope (splitHalves width value) fun scope' halves =>
      scope'.shape? halves.1 = some (.int 64) ∧ scope'.shape? halves.2 = some (.int (width - 64)) := by
  have native : 0 < width ∧ width ≤ 128 := ⟨by omega, narrow⟩
  unfold splitHalves Width.half
  apply Makes.bind (resizeMakes (by decide) hv)
  intro low scope₁ grows₁ hl
  apply Checks.bind (constBelow _ (by decide) (Nat.lt_succ_self 64))
  rintro amount scope₂ grows₂ ⟨-, below⟩
  have room : scope₂.Below amount (Width.containerBits width) := by
    obtain ⟨number, limit, known, le⟩ := below
    exact ⟨number, limit, known, by rw [wideContainer wide]; omega⟩
  apply Makes.bind (lshrMakes native (Scope.holdsGrown (grows₁.trans grows₂) hv) room)
  intro shifted scope₃ grows₃ hs
  apply Makes.bind (resizeMakes ⟨by omega, by omega⟩ (Scope.shapeHolds hs))
  intro high scope₄ grows₄ hh
  exact .pure ⟨Scope.shapeGrown (grows₂.trans (grows₃.trans grows₄)) hl, hh⟩

end Halves

theorem windowChecks {bits : Nat} (positive : 0 < bits) (narrow : bits ≤ 128) (what : String) {next : Nat → Emit α}
    {post : Scope → α → Prop} (rest : ∀ bytes, bits ≤ 8 * bytes → 0 < bytes → bytes ≤ 16 →
      Checks signature scope (next bytes) post) : Checks signature scope (window bits what >>= next) post := by
  unfold window
  rw [if_neg (by unfold Width.bytes; omega)]
  exact (pureBind (Width.bytes bits) next).symm ▸
    rest _ (by unfold Width.bytes; omega) (by unfold Width.bytes; omega) (by unfold Width.bytes; omega)

section Fields

variable {base : Ref} {field : Placement}

theorem loadFieldMakes (points : scope.shape? base = some .ptr) (regular : Regular field) :
    Makes signature scope (loadField base field) (.int field.width) := by
  have native := And.intro regular.positive regular.narrow
  induction field using loadField.induct generalizing scope with
  | case1 field shift =>
    rename_i whole
    have few : 0 < field.storage := by rw [regular.storage, Width.bytes]; have := regular.positive; omega
    rw [loadField, if_pos whole]
    apply Makes.bind (loadMakes _ points few whole.2)
    intro raw scope₁ grows₁ hr
    exact resizeMakes native (Scope.shapeHolds hr)
  | case2 field shift whole wide low =>
    rename_i high
    rw [loadField, if_neg whole, dif_pos wide]
    have upper := regular.high wide
    apply Makes.bind (low points (.low field) ⟨(Regular.low field).positive, (Regular.low field).narrow⟩)
    intro low' scope₁ grows₁ hl
    apply Makes.bind (high (Scope.shapeGrown grows₁ points) upper ⟨upper.positive, upper.narrow⟩)
    intro high' scope₂ grows₂ hh
    exact joinMakes wide.2 regular.narrow (Scope.holdsGrown grows₂ (Scope.shapeHolds hl)) (Scope.shapeHolds hh)
  | case3 field shift whole =>
    rename_i narrow
    rw [loadField, if_neg whole, dif_neg narrow]
    have byte : field.offset % 8 < 8 := Nat.mod_lt _ (by decide)
    rw [sumEq regular.counts]
    apply windowChecks (Nat.add_pos_right _ regular.positive) (narrowShifted regular.counts narrow)
    intro bytes _ some few
    apply Makes.bind (loadMakes _ points some few)
    intro raw scope₁ grows₁ hr
    apply Checks.bind (constBelow _ (by decide) byte)
    rintro amount scope₂ grows₂ ⟨-, below⟩
    apply Makes.bind (lshrMakes ⟨by omega, by omega⟩ (Scope.holdsGrown grows₂ (Scope.shapeHolds hr))
      (belowContainer below (Nat.le_refl 8) _))
    intro shifted scope₃ grows₃ hs
    exact resizeMakes native (Scope.shapeHolds hs)

theorem storeFieldChecks {value : Ref} (points : scope.shape? base = some .ptr) (regular : Regular field)
    (given : scope.Holds value field.width) : Checks signature scope (storeField base field value) fun _ _ => True := by
  induction field, value using storeField.induct generalizing scope with
  | case1 field value shift =>
    rename_i whole
    have some : 0 < field.storage := by rw [regular.storage, Width.bytes]; have := regular.positive; omega
    have few := whole.2.1
    rw [storeField, if_pos whole]
    apply Makes.bind (resizeMakes ⟨by omega, by omega⟩ given)
    intro wide scope₁ grows₁ hw
    exact storeChecks (Scope.shapeHolds hw) (Scope.shapeGrown grows₁ points) some few
  | case2 field value shift whole wide low =>
    rename_i high
    rw [storeField, if_neg whole, dif_pos wide]
    apply Checks.bind (splitChecks wide.2 regular.narrow given)
    rintro ⟨low', high'⟩ scope₁ grows₁ ⟨hl, hh⟩
    have points₁ := Scope.shapeGrown grows₁ points
    apply Checks.bind (low low' points₁ (.low field) (Scope.shapeHolds hl))
    rintro ⟨⟩ scope₂ grows₂ -
    exact high high' (Scope.shapeGrown grows₂ points₁) (regular.high wide)
      (Scope.holdsGrown grows₂ (Scope.shapeHolds hh))
  | case3 field value shift whole =>
    rename_i narrow
    rw [storeField, if_neg whole, dif_neg narrow]
    have byte : field.offset % 8 < 8 := Nat.mod_lt _ (by decide)
    rw [sumEq regular.counts]
    apply windowChecks (Nat.add_pos_right _ regular.positive) (narrowShifted regular.counts narrow)
    intro bytes _ some few
    have native : 0 < bytes * 8 ∧ bytes * 8 ≤ 128 := by omega
    apply Makes.bind (loadMakes _ points some few)
    intro old scope₁ grows₁ ho
    apply Makes.bind (constMakes _ native)
    intro keep scope₂ grows₂ hk
    apply Makes.bind (binaryMakes .and native (Scope.holdsGrown grows₂ (Scope.shapeHolds ho)) (Scope.shapeHolds hk))
    intro kept scope₃ grows₃ ht
    have grown := grows₁.trans (grows₂.trans grows₃)
    apply Makes.bind (resizeMakes native (Scope.holdsGrown grown given))
    intro wide scope₄ grows₄ hw
    apply Checks.bind (constBelow _ (by decide) byte)
    rintro amount scope₅ grows₅ ⟨-, below⟩
    apply Makes.bind (shlMakes native (Scope.holdsGrown grows₅ (Scope.shapeHolds hw))
      (belowContainer below (Nat.le_refl 8) _))
    intro placed scope₆ grows₆ hp
    have grown' := grows₄.trans (grows₅.trans grows₆)
    apply Makes.bind (binaryMakes .or native (Scope.holdsGrown grown' (Scope.shapeHolds ht)) (Scope.shapeHolds hp))
    intro merged scope₇ grows₇ hm
    exact storeChecks (Scope.shapeHolds hm) (Scope.shapeGrown (grown.trans (grown'.trans grows₇)) points) some few

end Fields

section Elements

variable {ptr shift : Ref} {width : Nat}

theorem loadShiftedMakes (points : scope.shape? ptr = some .ptr) (wide : scope.Holds shift 64)
    (below : scope.Below shift 8) (native : 0 < width ∧ width ≤ 128) :
    Makes signature scope (loadShifted ptr shift width) (.int width) := by
  induction ptr, width using loadShifted.induct generalizing scope with
  | case1 ptr width past low high =>
    rw [loadShifted, dif_pos past]
    have half : 64 < width := half_lt_of_not_fitsWindow past
    apply Makes.bind (low points wide below (by decide))
    intro low' scope₁ grows₁ hl
    apply Makes.bind (offsetMakes _ (Scope.shapeGrown grows₁ points))
    intro upper scope₂ grows₂ hu
    have grown := grows₁.trans grows₂
    apply Makes.bind (high upper hu (Scope.holdsGrown grown wide) (Scope.belowGrown grown below)
      (show 0 < width - 64 ∧ width - 64 ≤ 128 by omega))
    intro high' scope₃ grows₃ hh
    exact joinMakes half native.2 (Scope.holdsGrown (grows₂.trans grows₃) (Scope.shapeHolds hl)) (Scope.shapeHolds hh)
  | case2 ptr width fits =>
    rw [loadShifted, dif_neg fits, sumSeven native.2]
    apply windowChecks (by omega) ((fitsNarrow native.2).mp (not_not.mp fits))
    intro bytes _ some few
    have window : 0 < bytes * 8 ∧ bytes * 8 ≤ 128 := by omega
    apply Makes.bind (loadMakes _ points some few)
    intro raw scope₁ grows₁ hr
    apply Checks.bind (resizeBelow window (Scope.holdsGrown grows₁ wide) (Scope.belowGrown grows₁ below))
    rintro amount scope₂ grows₂ below'
    apply Makes.bind (lshrMakes window (Scope.holdsGrown grows₂ (Scope.shapeHolds hr))
      (belowContainer below' (Nat.le_refl 8) _))
    intro shifted scope₃ grows₃ hs
    exact resizeMakes native (Scope.shapeHolds hs)

theorem storeShiftedChecks {value : Ref} (points : scope.shape? ptr = some .ptr) (wide : scope.Holds shift 64)
    (below : scope.Below shift 8) (native : 0 < width ∧ width ≤ 128) (given : scope.Holds value width) :
    Checks signature scope (storeShifted ptr shift width value) fun _ _ => True := by
  induction ptr, width, value using storeShifted.induct generalizing scope with
  | case1 ptr width value past low high =>
    rw [storeShifted, dif_pos past]
    have half : 64 < width := half_lt_of_not_fitsWindow past
    apply Checks.bind (splitChecks half native.2 given)
    rintro ⟨low', high'⟩ scope₁ grows₁ ⟨hl, hh⟩
    apply Checks.bind (low low' (Scope.shapeGrown grows₁ points) (Scope.holdsGrown grows₁ wide)
      (Scope.belowGrown grows₁ below) (by decide) (Scope.shapeHolds hl))
    rintro ⟨⟩ scope₂ grows₂ -
    have grown := grows₁.trans grows₂
    apply Makes.bind (offsetMakes _ (Scope.shapeGrown grown points))
    intro upper scope₃ grows₃ hu
    have grown' := grown.trans grows₃
    exact high high' upper hu (Scope.holdsGrown grown' wide) (Scope.belowGrown grown' below)
      (show 0 < width - 64 ∧ width - 64 ≤ 128 by omega)
      (Scope.shapeHolds (Scope.shapeGrown (grows₂.trans grows₃) hh))
  | case2 ptr width value fits =>
    rw [storeShifted, dif_neg fits, sumSeven native.2]
    apply windowChecks (by omega) ((fitsNarrow native.2).mp (not_not.mp fits))
    intro bytes _ some few
    have window : 0 < bytes * 8 ∧ bytes * 8 ≤ 128 := by omega
    apply Checks.bind (resizeBelow window wide below)
    intro amount scope₁ grows₁ below₁
    have room₁ := belowContainer below₁ (Nat.le_refl 8) (bytes * 8)
    apply Makes.bind (loadMakes _ (Scope.shapeGrown grows₁ points) some few)
    intro old scope₂ grows₂ ho
    apply Makes.bind (constMakes _ window)
    intro ones scope₃ grows₃ hn
    apply Makes.bind (shlMakes window (Scope.shapeHolds hn) (Scope.belowGrown (grows₂.trans grows₃) room₁))
    intro mask scope₄ grows₄ hm
    apply Makes.bind (notMakes window (Scope.shapeHolds hm))
    intro keep scope₅ grows₅ hk
    have held := Scope.holdsGrown (grows₃.trans (grows₄.trans grows₅)) (Scope.shapeHolds ho)
    apply Makes.bind (binaryMakes .and window held (Scope.shapeHolds hk))
    intro kept scope₆ grows₆ ht
    have grown := grows₂.trans (grows₃.trans (grows₄.trans (grows₅.trans grows₆)))
    apply Makes.bind (resizeMakes window (Scope.holdsGrown (grows₁.trans grown) given))
    intro wide' scope₇ grows₇ hw
    apply Makes.bind (shlMakes window (Scope.shapeHolds hw) (Scope.belowGrown (grown.trans grows₇) room₁))
    intro placed scope₈ grows₈ hp
    apply Makes.bind (binaryMakes .or window (Scope.holdsGrown (grows₇.trans grows₈) (Scope.shapeHolds ht))
      (Scope.shapeHolds hp))
    intro merged scope₉ grows₉ hg
    have points' := Scope.shapeGrown (grows₁.trans (grown.trans (grows₇.trans (grows₈.trans grows₉)))) points
    exact storeChecks (Scope.shapeHolds hg) points' some few

variable {base index : Ref} (points : scope.shape? base = some .ptr) (number : scope.Holds index 64)
  (native : 0 < width ∧ width ≤ 128)
include points number

theorem elementAddressChecks : Checks signature scope (elementAddress base index width) fun scope' place =>
    scope'.shape? place.1 = some .ptr ∧
      match place.2 with
      | none => width % 8 = 0
      | some shift => scope'.Holds shift 64 ∧ scope'.Below shift 8 := by
  have word : 0 < 64 ∧ 64 ≤ 128 := by decide
  unfold elementAddress
  split
  · rename_i whole
    apply Makes.bind (constMakes _ word)
    intro stride scope₁ grows₁ hs
    apply Makes.bind (binaryMakes .mul word (Scope.holdsGrown grows₁ number) (Scope.shapeHolds hs))
    intro distance scope₂ grows₂ hd
    apply Makes.bind (indexMakes (Scope.shapeGrown (grows₁.trans grows₂) points) (Scope.shapeHolds hd))
    intro ptr scope₃ grows₃ hp
    exact .pure ⟨hp, whole⟩
  · apply Makes.bind (constMakes _ word)
    intro stride scope₁ grows₁ hs
    apply Makes.bind (binaryMakes .mul word (Scope.holdsGrown grows₁ number) (Scope.shapeHolds hs))
    intro bit scope₂ grows₂ hb
    apply Checks.bind (constBelow 8 word (by decide))
    rintro three scope₃ grows₃ ⟨-, below₃⟩
    apply Makes.bind (lshrMakes word (Scope.holdsGrown grows₃ (Scope.shapeHolds hb))
      (belowContainer below₃ (Nat.le_refl 8) _))
    intro byte scope₄ grows₄ hy
    apply Checks.bind (constBelow 8 word (by decide))
    rintro seven scope₅ grows₅ ⟨is₅, below₅⟩
    have grown := grows₃.trans (grows₄.trans grows₅)
    apply Checks.bind (andBelow word (Scope.holdsGrown grown (Scope.shapeHolds hb)) (Scope.shapeHolds is₅) below₅)
    rintro shift scope₆ grows₆ ⟨hh, below₆⟩
    have points₆ := Scope.shapeGrown (grows₁.trans (grows₂.trans (grown.trans grows₆))) points
    apply Makes.bind (indexMakes points₆ (Scope.holdsGrown (grows₅.trans grows₆) (Scope.shapeHolds hy)))
    intro ptr scope₇ grows₇ hp
    exact .pure ⟨hp, Scope.holdsGrown grows₇ (Scope.shapeHolds hh), Scope.belowGrown grows₇ below₆⟩

include native

theorem loadElementMakes : Makes signature scope (loadElement base index width) (.int width) := by
  unfold loadElement
  apply Checks.bind (elementAddressChecks points number)
  rintro ⟨ptr, shift?⟩ scope' grows ⟨hp, start⟩
  cases shift? with
  | none =>
    have whole : width / 8 * 8 = width := by
      have aligned : width % 8 = 0 := start
      omega
    have made : Makes signature _ _ _ := loadMakes 0 hp (show 0 < width / 8 by omega) (by omega)
    rw [whole] at made
    exact made
  | some shift => exact loadShiftedMakes hp start.1 start.2 native

theorem storeElementChecks {value : Ref} (given : scope.Holds value width) :
    Checks signature scope (storeElement base index width value) fun _ _ => True := by
  unfold storeElement
  apply Checks.bind (elementAddressChecks points number)
  rintro ⟨ptr, shift?⟩ scope' grows ⟨hp, start⟩
  have given' := Scope.holdsGrown grows given
  cases shift? with
  | none =>
    have whole : width / 8 * 8 = width := by
      have aligned : width % 8 = 0 := start
      omega
    exact storeChecks (by rw [whole]; exact given') hp (by omega) (by omega)
  | some shift => exact storeShiftedChecks hp start.1 start.2 native given'

end Elements

end Emit

open Emit

namespace Primitive

variable {signature : Signature} {scope : Scope} {inputs : List Ref} {state : Ref}

theorem boundedMakes {address : Ref} {depth : Nat} (positive : 0 < depth) (small : depth < 2 ^ 64)
    (given : scope.Holds address (Width.address depth)) :
    Makes signature scope (boundedIndex address depth) (.int 64) := by
  unfold boundedIndex
  apply Makes.bind (resizeMakes (by decide) given)
  intro index scope' grows hi
  split
  · exact .pure hi
  · have nonzero : Word.wrap 64 depth ≠ 0 := by
      rw [Word.wrapSmall (by decide) small]
      exact positive.ne'
    exact opMakes (o := .urem 64 index depth) ⟨Scope.shapeHolds hi, Nat.le_refl 64, nonzero⟩
      (show 0 < 64 ∧ 64 ≤ 128 by decide)

theorem depthSmall {width depth : Nat} (valid : (mem width depth).Valid) : 0 < depth ∧ depth < 2 ^ 64 := by
  obtain ⟨positive, -, some, few, -⟩ := valid
  have le : depth ≤ width * depth := Nat.le_mul_of_pos_left depth positive
  exact ⟨some, by omega⟩

variable {primitive : Primitive} (valid : primitive.Valid) (points : scope.shape? state = some .ptr)
include valid points

theorem computeMakes (fed : ∀ j k pin, primitive.reads[j]? = some k → primitive.inputs[k]? = some pin →
    scope.shape? (inputs.getD j 0) = some (.int pin.2)) :
    Makes signature scope (primitive.compute inputs state) (.int primitive.width) := by
  cases primitive with
  | register width => exact loadFieldMakes points ⟨valid.1, valid.2, rfl⟩
  | const width value => exact constMakes value ⟨valid.1, valid.2.1⟩
  | binary op width =>
    have made : Makes signature scope _ _ :=
      binaryMakes op valid (Scope.shapeHolds (fed 0 0 _ rfl rfl)) (Scope.shapeHolds (fed 1 1 _ rfl rfl))
    cases op with
    | add | sub | mul | and | or | xor => exact made
  | not width => exact notMakes valid (Scope.shapeHolds (fed 0 0 _ rfl rfl))
  | compare op width =>
    exact opMakes (o := .compare op width _ _)
      ⟨Scope.shapeHolds (fed 0 0 _ rfl rfl), Scope.shapeHolds (fed 1 1 _ rfl rfl)⟩ (show 0 < 1 ∧ 1 ≤ 128 by decide)
  | mux width =>
    exact opMakes (o := .select width _ _ _)
      ⟨fed 2 2 _ rfl rfl, Scope.shapeHolds (fed 0 0 _ rfl rfl), Scope.shapeHolds (fed 1 1 _ rfl rfl)⟩ valid
  | mem width depth =>
    obtain ⟨some, small⟩ := depthSmall valid
    apply Makes.bind (boundedMakes some small (Scope.shapeHolds (fed 0 3 _ rfl rfl)))
    intro index scope' grows hi
    exact loadElementMakes (Scope.shapeGrown grows points) (Scope.shapeHolds hi) ⟨valid.1, valid.2.1⟩

theorem updateChecks (fed : ∀ k pin, primitive.inputs[k]? = some pin →
    scope.shape? (inputs.getD k 0) = some (.int pin.2)) :
    Checks signature scope (primitive.update inputs state) fun _ _ => True := by
  cases primitive with
  | register width =>
    exact storeFieldChecks points ⟨valid.1, valid.2, rfl⟩ (Scope.shapeHolds (fed 0 _ rfl))
  | mem width depth =>
    obtain ⟨some, small⟩ := depthSmall valid
    refine branchChecks (fed 2 _ rfl) ?_
    apply Makes.bind (boundedMakes some small (Scope.shapeHolds (fed 0 _ rfl)))
    intro index scope' grows hi
    exact storeElementChecks (Scope.shapeGrown grows points) (Scope.shapeHolds hi) ⟨valid.1, valid.2.1⟩
      (Scope.holdsGrown grows (Scope.shapeHolds (fed 1 _ rfl)))
  | const | binary | not | compare | mux => exact .pure trivial

end Primitive

end CircuitSim
