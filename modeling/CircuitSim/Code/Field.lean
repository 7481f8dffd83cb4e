import CircuitSim.Code.Emit
import CircuitSim.Record.Layout

/-!
Code that reads and writes a field at a fixed bit position. A field that starts on a byte is one access of its
own bytes; any other is a window of whole bytes, shifted and masked. Where a window would be wider than a value
can be, the field is taken as its low 64 bits and the rest.
-/
namespace CircuitSim.Emit

/-- The bytes of a window of `bits` bits, at most as many as a value holds. -/
def window (bits : Nat) (what : String) : Emit Nat :=
  if 16 < Width.bytes bits then fail (.unsupportedWidth what bits) else pure (Width.bytes bits)

/-- The byte that holds a bit position, as the signed 32-bit distance that an access takes. -/
def byteOffset (bit : Nat) : Int := (bit / 8 : Int).bmod (2 ^ 32)

def lowHalf (field : Placement) : Placement := ⟨field.offset, Width.half, Width.half / 8, false⟩

def highHalf (field : Placement) : Placement :=
  let width := field.width - Width.half
  ⟨field.offset + Width.half, width, Width.bytes width, false⟩

def joinHalves (width : Nat) (low high : Ref) : Emit Ref := do
  let low ← resize low Width.half width
  let high ← resize high (width - Width.half) width
  let amount ← const 8 Width.half
  let high ← shl width high amount
  binary .or width low high

def splitHalves (width : Nat) (value : Ref) : Emit (Ref × Ref) := do
  let low ← resize value width Width.half
  let amount ← const 8 Width.half
  let high ← lshr width value amount
  let high ← resize high width (width - Width.half)
  return (low, high)

/-- A window around the field would be wider than a value, and the field can be halved. -/
def tooWide (field : Placement) : Prop :=
  Width.maxNative < Width.sum (field.offset % 8) field.width ∧ Width.half < field.width

instance (field : Placement) : Decidable (tooWide field) :=
  inferInstanceAs (Decidable (_ ∧ _))

theorem highHalf_width_lt {field : Placement} (h : tooWide field) :
    (highHalf field).width < field.width := by
  have := h.2
  simp only [highHalf, Width.half] at this ⊢
  omega

def loadField (base : Ref) (field : Placement) : Emit Ref :=
  let shift := field.offset % 8
  if shift = 0 ∧ field.storage ≤ 16 then do
    let raw ← load base (byteOffset field.offset) field.storage
    resize raw (field.storage * 8) field.width
  else if _wide : tooWide field then do
    let low ← loadField base (lowHalf field)
    let high ← loadField base (highHalf field)
    joinHalves field.width low high
  else do
    let bytes ← window (Width.sum shift field.width) "bit field"
    let raw ← load base (byteOffset field.offset) bytes
    let amount ← const 8 shift
    let shifted ← lshr (bytes * 8) raw amount
    resize shifted (bytes * 8) field.width
termination_by field.width
decreasing_by
  · exact _wide.2
  · exact highHalf_width_lt _wide

/-- The bits of a window that a field of `width` bits at `shift` leaves alone. -/
def keepMask (shift width bits : Nat) : Nat :=
  (2 ^ 128 - 1 - (Width.mask width <<< shift) % 2 ^ 128) &&& Width.mask bits

def storeField (base : Ref) (field : Placement) (value : Ref) : Emit Unit :=
  let shift := field.offset % 8
  if shift = 0 ∧ field.storage ≤ 16 ∧ (field.exclusive ∨ field.width % 8 = 0) then do
    let wide ← resize value field.width (field.storage * 8)
    store wide base (byteOffset field.offset) field.storage
  else if _wide : tooWide field then do
    let (low, high) ← splitHalves field.width value
    storeField base (lowHalf field) low
    storeField base (highHalf field) high
  else do
    let bytes ← window (Width.sum shift field.width) "bit field"
    let bits := bytes * 8
    let old ← load base (byteOffset field.offset) bytes
    let keep ← const bits (keepMask shift field.width bits)
    let kept ← binary .and bits old keep
    let wide ← resize value field.width bits
    let amount ← const 8 shift
    let placed ← shl bits wide amount
    let merged ← binary .or bits kept placed
    store merged base (byteOffset field.offset) bytes
termination_by field.width
decreasing_by
  · exact _wide.2
  · exact highHalf_width_lt _wide

end CircuitSim.Emit
