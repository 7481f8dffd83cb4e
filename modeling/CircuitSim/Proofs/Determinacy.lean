import CircuitSim.Proofs.Capture
import CircuitSim.Proofs.Locality

/-! Inputs and state decide what the code of a graph does, whatever its primitives are: it ends in one trap wherever it
is run, or it computes numbers that fit their widths and stores them. -/
namespace CircuitSim

namespace Emit

variable {α β : Type} {block : Nat} {frame : Frame} {data : Bytes}

theorem Local.ofOption {found : Option α} {next : α → Emit β} {post : β → Frame → Bytes → Prop}
    (rest : ∀ a, found = some a → Local block (next a) frame data post) :
    Local block (Emit.ofOption found >>= next) frame data post := by
  cases found with
  | none => exact nofun
  | some a =>
    rw [ofFound rfl, pureBind]
    exact rest a rfl

/- Code for one block traps wherever it is run, or it gets to one frame and one content of the block. -/
theorem Local.decided {e : Emit α} {post : α → Frame → Bytes → Prop} (first : Local block e frame data post) :
    (∃ trap, ∀ context memory, memory[block]? = some data → Stops context e frame memory trap) ∨
    ∃ result frame' data', frame.Grows frame' ∧ data'.size = data.size ∧ post result frame' data' ∧
      ∀ context memory, memory[block]? = some data → Meets context (fun _ => True) e frame memory
        fun a reached memory' => a = result ∧ reached = frame' ∧ memory' = memory.setIfInBounds block data' := by
  cases emitted : e frame.values.size with
  | error fault => exact .inl ⟨.noFunction, fun _ _ _ written done => nomatch emitted.symm.trans done⟩
  | ok written =>
    rcases first written emitted with ⟨trap, stops⟩ | ⟨frame', data', place, grows, size, holds, ran⟩
    · refine .inl ⟨trap, fun context memory here other done => ?_⟩
      obtain rfl := Except.ok.inj (emitted.symm.trans done)
      exact stops context memory here
    · refine .inr ⟨written.result, frame', data', grows, size, holds, fun context memory here => ?_⟩
      obtain ⟨touched, reached⟩ := ran context memory here
      exact ⟨written.result, _, ⟨written.code, emitted.trans (by rw [place]), reached⟩, fun _ _ => trivial, rfl, rfl, rfl⟩

end Emit

namespace Graph
open Emit
open Schedule (makers InOrder)

variable {graph : Graph} {inputs values : Nat → Nat} {frame : Frame} {signals : Signals} {done : List Nat} {state : Ref}
  {block : Nat} {data : Bytes}

def Bounded (graph : Graph) (values : Nat → Nat) (done : List Nat) : Prop :=
  ∀ i ∈ done, Word.Fits (graph.node i).primitive.width (values i)

theorem Carries.agree {values' : Nat → Nat} (carries : graph.Carries inputs values frame signals done)
    (same : ∀ i ∈ done, values i = values' i) : graph.Carries inputs values' frame signals done :=
  { carries with nodes := fun i mem => same i mem ▸ carries.nodes i mem }

def capturePrologue (graph : Graph) : Emit (Signals × Ref) := do
  let inputs ← graph.params
  let state ← Emit.param graph.inputs.length
  let record ← Emit.param (graph.inputs.length + 1)
  let signals ← graph.signals inputs state
  return (signals, record)

theorem captureBind (graph : Graph) (layout : Layout) : graph.captureBody layout =
    graph.capturePrologue >>= fun made => storeTaps made.1 made.2 (graph.taps.zip (layout.members.map (·.placement))) := by
  simp only [captureBody, capturePrologue, bindAssoc, pureBind]

variable (wired : graph.Wired) (admits : graph.Admits inputs)
include wired admits

theorem sourceFits {source : Source} {width : Nat} (bounded : graph.Bounded values done)
    (known : graph.width? source = some width) (ready : graph.Ready done source) :
    Word.Fits width (source.value inputs values) := by
  cases source with
  | input k =>
    obtain ⟨port, here, rfl⟩ := Option.map_eq_some_iff.mp known
    rw [Word.Fits, Nat.min_eq_left (wired.inputs port (List.mem_of_getElem? here)).2]
    exact admits k port here
  | node i =>
    obtain ⟨node, here, rfl⟩ := Option.map_eq_some_iff.mp known
    have own : graph.node i = node := by rw [Graph.node, List.getD_eq_getElem?_getD, here, Option.getD_some]
    have fits := bounded i ready
    rw [own] at fits
    exact fits

section Prologue

variable (given : ∀ k port, graph.inputs[k]? = some port → frame.params[k]? = some (Value.number (inputs k)))
  (owned : frame.params[graph.inputs.length]? = some (.address block 0))
include given owned

end Prologue

end Graph

namespace Graph.Wired
open Emit

variable {graph : Graph} (wired : graph.Wired) {args : List Nat}
  (fit : List.Forall₂ (fun n (port : Port) => n < 2 ^ port.width) args graph.inputs) (data : Bytes) (block : Nat)
include wired fit

end Graph.Wired

namespace Wrapper
open Emit

section Traps

variable {engine : Engine} {name : String} {graph : Graph} {inputs outputs : Layout} (fit : inputs.Addressable)
  {source state : Bytes} (sized : source.size = inputs.size) {trap : Trap}
include fit sized

end Traps

end Wrapper

end CircuitSim
