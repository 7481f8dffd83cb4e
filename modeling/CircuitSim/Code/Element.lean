import CircuitSim.Code.Field

/-!
Code that reads and writes element `i` of an array of `width`-bit elements laid end to end. Elements of whole
bytes are accessed directly; any other starts at a bit of its first byte that is known only when the code runs.
-/
namespace CircuitSim.Emit

/-- The address of the first byte of an element, with the bit inside it unless elements are whole bytes. -/
def elementAddress (base index : Ref) (width : Nat) : Emit (Ref × Option Ref) := do
  if width % 8 = 0 then
    let stride ← const 64 (width / 8)
    let distance ← binary .mul 64 index stride
    return (← Emit.index 64 base distance, none)
  else
    let stride ← const 64 width
    let bit ← binary .mul 64 index stride
    let three ← const 64 3
    let byte ← lshr 64 bit three
    let seven ← const 64 7
    let shift ← binary .and 64 bit seven
    return (← Emit.index 64 base byte, some shift)

/-- An element of `width` bits fits a window whatever bit it starts at. -/
def fitsWindow (width : Nat) : Prop := Width.sum width 7 ≤ Width.maxNative

instance (width : Nat) : Decidable (fitsWindow width) := inferInstanceAs (Decidable (_ ≤ _))

theorem half_lt_of_not_fitsWindow {width : Nat} (h : ¬fitsWindow width) : Width.half < width := by
  have le := Width.sum_le width 7
  simp only [fitsWindow, Width.maxNative] at h
  simp only [Width.half]
  omega

theorem sub_half_lt_of_not_fitsWindow {width : Nat} (h : ¬fitsWindow width) :
    width - Width.half < width := by
  have := half_lt_of_not_fitsWindow h
  simp only [Width.half] at this ⊢
  omega

def loadShifted (ptr shift : Ref) (width : Nat) : Emit Ref :=
  if _wide : ¬fitsWindow width then do
    let low ← loadShifted ptr shift Width.half
    let upper ← offset ptr (Width.half / 8)
    let high ← loadShifted upper shift (width - Width.half)
    joinHalves width low high
  else do
    let bytes ← window (Width.sum width 7) "memory element"
    let bits := bytes * 8
    let raw ← load ptr 0 bytes
    let shift ← resize shift 64 bits
    let shifted ← lshr bits raw shift
    resize shifted bits width
termination_by width
decreasing_by
  · exact half_lt_of_not_fitsWindow _wide
  · exact sub_half_lt_of_not_fitsWindow _wide

def storeShifted (ptr shift : Ref) (width : Nat) (value : Ref) : Emit Unit :=
  if _wide : ¬fitsWindow width then do
    let (low, high) ← splitHalves width value
    storeShifted ptr shift Width.half low
    let upper ← offset ptr (Width.half / 8)
    storeShifted upper shift (width - Width.half) high
  else do
    let bytes ← window (Width.sum width 7) "memory element"
    let bits := bytes * 8
    let shift ← resize shift 64 bits
    let old ← load ptr 0 bytes
    let ones ← const bits (Width.mask width)
    let mask ← shl bits ones shift
    let keep ← not bits mask
    let kept ← binary .and bits old keep
    let wide ← resize value width bits
    let placed ← shl bits wide shift
    let merged ← binary .or bits kept placed
    store merged ptr 0 bytes
termination_by width
decreasing_by
  · exact half_lt_of_not_fitsWindow _wide
  · exact sub_half_lt_of_not_fitsWindow _wide

/-- `index` is a 64-bit value. -/
def loadElement (base index : Ref) (width : Nat) : Emit Ref := do
  match ← elementAddress base index width with
  | (ptr, none) => load ptr 0 (width / 8)
  | (ptr, some shift) => loadShifted ptr shift width

/-- `index` is a 64-bit value. -/
def storeElement (base index : Ref) (width : Nat) (value : Ref) : Emit Unit := do
  match ← elementAddress base index width with
  | (ptr, none) => store value ptr 0 (width / 8)
  | (ptr, some shift) => storeShifted ptr shift width value

end CircuitSim.Emit
