import CircuitSim.Proofs.Compute

/-! Code for one block of memory. It loads and stores through addresses of the block only, so it has one outcome whatever
else is in memory: a trap, or numbers that keep to their widths with new bytes in the block. This holds of the code of
every primitive, also where its widths are none that a machine has. -/
namespace CircuitSim

namespace Word

def Fits (width n : Nat) : Prop := n < 2 ^ min width 128

variable {width a b : Nat}

end Word

namespace Memory

variable {memory memory' : Memory} {block : Nat} {data : Bytes}

section Block

variable (here : memory[block]? = some data) (here' : memory'[block]? = some data)
include here here'

end Block

end Memory

namespace Frame

def Fits (frame : Frame) (ref : Ref) (width : Nat) : Prop := ∃ n, frame.Holds ref (.number n) ∧ Word.Fits width n

def Points (frame : Frame) (ref : Ref) (block : Nat) : Prop := ∃ position, frame.Holds ref (.address block position)

variable {frame frame' : Frame} {ref : Ref} {width block : Nat}

theorem Fits.grow (fits : frame.Fits ref width) (grows : frame.Grows frame') : frame'.Fits ref width :=
  fits.imp fun _ both => ⟨grows.holds both.1, both.2⟩

theorem Fits.bits (fits : frame.Fits ref width) : Word.Fits width (frame.bits ref) := by
  obtain ⟨n, held, small⟩ := fits
  rw [bitsHeld held]
  exact small

theorem Points.grow (points : frame.Points ref block) (grows : frame.Grows frame') : frame'.Points ref block :=
  points.imp fun _ held => grows.holds held

end Frame

namespace Emit

variable {α β : Type} {block : Nat} {frame : Frame} {data : Bytes}

/- One outcome for all runs that find these bytes in the block, whatever else they find: one trap, or one frame, with one
content of the block and all else as it was. -/
def Local (block : Nat) (e : Emit α) (frame : Frame) (data : Bytes) (post : α → Frame → Bytes → Prop) : Prop :=
  ∀ written, e frame.values.size = .ok written →
    (∃ trap, ∀ context memory, memory[block]? = some data → written.code.exec context frame memory = .error trap) ∨
    ∃ frame' data', frame'.values.size = written.next ∧ frame.Grows frame' ∧ data'.size = data.size ∧
      post written.result frame' data' ∧ ∀ context memory, memory[block]? = some data →
        ∃ touched, written.code.exec context frame memory = .ok ⟨frame', memory.setIfInBounds block data', touched⟩

def Numbers (block : Nat) (e : Emit Ref) (frame : Frame) (data : Bytes) (width : Nat) : Prop :=
  Local block e frame data fun ref frame' data' => data' = data ∧ frame'.Fits ref width

def Leads (block : Nat) (e : Emit Ref) (frame : Frame) (data : Bytes) : Prop :=
  Local block e frame data fun ref frame' data' => data' = data ∧ frame'.Points ref block

def Still (block : Nat) (e : Emit α) (frame : Frame) (data : Bytes) : Prop :=
  Local block e frame data fun _ _ data' => data' = data

def Stores (block : Nat) (e : Emit Unit) (frame : Frame) (data : Bytes) : Prop :=
  Local block e frame data fun _ _ _ => True

theorem Local.pure {result : α} {post : α → Frame → Bytes → Prop} (holds : post result frame data) :
    Local block (Pure.pure result) frame data post := by
  intro written emitted
  cases emitted
  exact .inr ⟨frame, data, rfl, .refl frame, rfl, holds, fun context memory here => ⟨[], by rw [Memory.blockSame here]; rfl⟩⟩

theorem Local.bind {e : Emit α} {next : α → Emit β} {mid : α → Frame → Bytes → Prop}
    {post : β → Frame → Bytes → Prop} (first : Local block e frame data mid)
    (rest : ∀ a frame' data', frame.Grows frame' → mid a frame' data' → Local block (next a) frame' data' post) :
    Local block (e >>= next) frame data post := by
  intro written emitted
  simp only [Bind.bind, Emit.bind] at emitted
  split at emitted
  · cases emitted
  · rename_i a begun
    split at emitted
    · cases emitted
    · rename_i b ended
      cases emitted
      rcases first a begun with ⟨trap, stops⟩ | ⟨frame₁, data₁, place, grows, size, holds, ran⟩
      · refine .inl ⟨trap, fun context memory here => ?_⟩
        rw [Code.execAppend, stops context memory here]
        rfl
      · rcases rest a.result frame₁ data₁ grows holds b (place ▸ ended) with
          ⟨trap, stops⟩ | ⟨frame₂, data₂, place', grows', size', holds', ran'⟩
        · refine .inl ⟨trap, fun context memory here => ?_⟩
          obtain ⟨touched, reached⟩ := ran context memory here
          rw [Code.execAppend, reached, Except.bind, stops context _ (Memory.blockSet here data₁)]
          rfl
        · refine .inr ⟨frame₂, data₂, place', grows.trans grows', size'.trans size, holds', fun context memory here => ?_⟩
          obtain ⟨touched, reached⟩ := ran context memory here
          obtain ⟨touched', reached'⟩ := ran' context _ (Memory.blockSet here data₁)
          refine ⟨touched ++ touched', ?_⟩
          rw [Code.execAppend, reached, Except.bind, reached', Array.setIfInBounds_setIfInBounds]
          rfl

theorem Local.mono {e : Emit α} {mid post : α → Frame → Bytes → Prop} (first : Local block e frame data mid)
    (weaker : ∀ a frame' data', frame.Grows frame' → mid a frame' data' → post a frame' data') :
    Local block e frame data post := by
  intro written emitted
  rcases first written emitted with stops | ⟨frame', data', place, grows, size, holds, ran⟩
  · exact .inl stops
  · exact .inr ⟨frame', data', place, grows, size, weaker _ _ _ grows holds, ran⟩

theorem Numbers.bind {e : Emit Ref} {next : Ref → Emit β} {width : Nat} {post : β → Frame → Bytes → Prop}
    (first : Numbers block e frame data width)
    (rest : ∀ ref frame', frame.Grows frame' → frame'.Fits ref width → Local block (next ref) frame' data post) :
    Local block (e >>= next) frame data post :=
  Local.bind first fun ref frame' _ grows ⟨same, fits⟩ => same ▸ rest ref frame' grows fits

theorem Leads.bind {e : Emit Ref} {next : Ref → Emit β} {post : β → Frame → Bytes → Prop} (first : Leads block e frame data)
    (rest : ∀ ref frame', frame.Grows frame' → frame'.Points ref block → Local block (next ref) frame' data post) :
    Local block (e >>= next) frame data post :=
  Local.bind first fun ref frame' _ grows ⟨same, points⟩ => same ▸ rest ref frame' grows points

theorem Still.bind {e : Emit α} {next : α → Emit β} {post : β → Frame → Bytes → Prop} (first : Still block e frame data)
    (rest : ∀ a frame', frame.Grows frame' → Local block (next a) frame' data post) :
    Local block (e >>= next) frame data post :=
  Local.bind first fun a frame' _ grows same => same ▸ rest a frame' grows

theorem Numbers.still {e : Emit Ref} {width : Nat} (numbers : Numbers block e frame data width) :
    Still block e frame data := numbers.mono fun _ _ _ _ both => both.1

section Operations

variable {width : Nat}

variable {a b : Ref} (ha : frame.Fits a width)
include ha

variable (hb : frame.Fits b width)
include hb

end Operations

section Pointers

variable {ptr : Ref} (points : frame.Points ptr block)
include points

end Pointers

section Elements

variable {base ptr : Ref}

end Elements

end Emit

namespace Primitive
open Emit

variable {primitive : Primitive} {block : Nat} {frame : Frame} {data : Bytes} {args : List Ref} {slice : Ref}

end Primitive

end CircuitSim
