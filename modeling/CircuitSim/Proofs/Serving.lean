import CircuitSim.Proofs.Building
import CircuitSim.Proofs.Determinacy

/-! What one call does to a simulator: the values that are settled under its inputs and its state are shown, stored
or captured, and all else stays. -/
namespace CircuitSim.Simulator

theorem invokeRan {sim : Simulator} {name : String} {buffers : List Bytes} {memory : Memory}
    (ran : sim.engine.invoke name ((List.range buffers.length).map (.address · 0)) buffers.toArray = .ok memory) :
    sim.invoke name buffers = .ok memory := by
  rw [invoke, ran]

namespace Serves

variable {sim : Simulator} {graph : Graph} (serves : sim.Serves graph)
include serves

theorem outputMembers : List.Forall₂ (fun (member : Member) (output : Port × Source) =>
    Port.mk member.name member.width = output.1) sim.outputs.layout.members graph.outputs := by
  have same := serves.outputPorts
  rw [← List.forall₂_eq_eq_eq, List.forall₂_map_left_iff, List.forall₂_map_right_iff] at same
  exact same

variable (sized : sim.inputs.data.size = sim.inputs.layout.size)
include sized

theorem numbersFit : List.Forall₂ (fun n (port : Port) => n < 2 ^ port.width) sim.inputs.numbers graph.inputs := by
  rw [← serves.inputPorts, Record.numbers, List.forall₂_map_left_iff, List.forall₂_map_right_iff, List.forall₂_same]
  exact fun member mem => Record.valueLt serves.inputs.placed sized mem

variable (sized' : sim.outputs.data.size = sim.outputs.layout.size) (room : sim.state.size = graph.stateBytes + 16)
include sized' room

theorem buffersChecked : sim.checkBuffers = .ok () := by
  have state : sim.stateBytes + margin = sim.state.size := by
    rw [room, serves.stateBytes]
    rfl
  rw [checkBuffers, checkBuffer, checkBuffer, checkBuffer, if_pos sized.symm, if_pos sized'.symm, if_pos state]
  rfl

section Compute

variable {values : Nat → Nat} (small : ∀ output ∈ graph.outputs,
    output.2.value (fun k => sim.inputs.numbers.getD k 0) values < 2 ^ output.1.width)
  (computes : graph.ComputesAt 2 (Wrapper.slotsOf graph.outputs.length) sim.inputs.numbers sim.state values)
include small computes

theorem computedAt : sim.compute = .ok { sim with
    outputs := ⟨sim.outputs.layout, sim.outputs.layout.pack
      (graph.outputNumber (fun k => sim.inputs.numbers.getD k 0) values) 0 sim.outputs.layout.members
      sim.outputs.data⟩ } := by
  obtain ⟨memory, invoked, one, two⟩ := Wrapper.computeWrapped serves.inputs sized serves.compute serves.outputs
    (serves.outputMembers.imp fun member output same => by rw [← same]) sized' computes small
  have ran : sim.invoke sim.symbols.compute [sim.inputs.data, sim.outputs.data, sim.state] = .ok memory :=
    invokeRan invoked
  simp only [Simulator.compute, serves.buffersChecked sized sized' room, ran, bind, Except.bind, pure, Except.pure, block,
    Memory.blockGet one, Memory.blockGet two]

theorem showsAt : ∃ after, sim.compute = .ok after ∧ after.outputs.data.size = sim.outputs.layout.size ∧
      ∀ (k : Nat) (output : Port × Source) (member : Member), graph.outputs[k]? = some output →
        sim.outputs.layout.members[k]? = some member → after.outputs.value member =
          output.2.value (fun k => sim.inputs.numbers.getD k 0) values := by
  let number := graph.outputNumber (fun k => sim.inputs.numbers.getD k 0) values
  have numbered : ∀ k output, graph.outputs[k]? = some output →
      number k = output.2.value (fun k => sim.inputs.numbers.getD k 0) values := by
    intro k output known
    simp only [number, Graph.outputNumber, List.getD_eq_getElem?_getD, known, Option.getD_some]
  have packed : sim.outputs.layout.Repacked number 0 sim.outputs.data
      (sim.outputs.layout.pack number 0 sim.outputs.layout.members sim.outputs.data) := by
    refine Layout.packRepacked serves.outputs.placed (fun j => by rw [Nat.zero_add]) (fun j member known => ?_) sized'
    obtain ⟨output, known', same⟩ := Result.forallAt serves.outputMembers known
    have width : member.width = output.1.width := congrArg Port.width same
    rw [Nat.zero_add, numbered j output known', width]
    exact small output (List.mem_of_getElem? known')
  refine ⟨_, serves.computedAt sized sized' room small computes, packed.size, fun k output member known known' => ?_⟩
  rw [← numbered k output known]
  exact packed.put k member (Nat.zero_le k) known'

end Compute

theorem updatedAt {state' : Bytes} (updates : graph.UpdatesAt 1 sim.inputs.numbers sim.state state') :
    sim.update = .ok { sim with state := state' } := by
  obtain ⟨memory, invoked, one⟩ := Wrapper.updateWrapped serves.inputs sized serves.update updates
  have ran : sim.invoke sim.symbols.update [sim.inputs.data, sim.state] = .ok memory := invokeRan invoked
  simp only [Simulator.update, serves.buffersChecked sized sized' room, ran, bind, Except.bind, pure, Except.pure, block,
    Memory.blockGet one]

section Capture

variable {taps : Taps} {name : String} (named : sim.symbols.capture = some name)
  (wraps : sim.engine.Wraps name (Wrapper.captureBody sim.inputs.layout) (graph.captureBody taps.region.layout))
include named wraps

omit sized' room in
theorem capturedAt {values : Nat → Nat}
    (captures : graph.CapturesAt taps.region.layout 1 2 sim.inputs.numbers sim.state values)
    (sized' : taps.region.data.size = taps.region.layout.size) : ∃ data,
    let taps' : Taps := { taps with region := ⟨taps.region.layout, data⟩ }
    sim.capture taps = .ok (taps', { sim with taps := some taps' }) ∧
      taps.region.layout.Repacked (graph.tapNumber (fun k => sim.inputs.numbers.getD k 0) values) 0 taps.region.data
        data := by
  obtain ⟨memory, data, invoked, one, two, packed⟩ := Wrapper.captureWrapped serves.inputs sized wraps captures sized'
  have ran : sim.invoke name [sim.inputs.data, sim.state, taps.region.data] = .ok memory := invokeRan invoked
  refine ⟨data, ?_, packed⟩
  simp only [capture, named, ran, bind, Except.bind, pure, Except.pure, block, Memory.blockGet one, Memory.blockGet two]

end Capture

section WellFormed

variable (wellFormed : graph.WellFormed) {values : Nat → Nat}
  (settled : graph.Settled (fun k => sim.inputs.numbers.getD k 0) (Node.words sim.state) values)
include wellFormed settled

omit sized' room in
theorem outputSmall : ∀ output ∈ graph.outputs,
    output.2.value (fun k => sim.inputs.numbers.getD k 0) values < 2 ^ output.1.width := fun output mem =>
  Graph.sourceLt wellFormed (fun node _ => node.wordsLt sim.state) settled (Graph.argsAdmit (serves.numbersFit sized))
    (wellFormed.outputs output mem).1

omit sized' in
theorem computesSettled : graph.Computes sim.inputs.numbers sim.state values :=
  wellFormed.computes (serves.numbersFit sized) (by omega) settled

theorem computed : sim.compute = .ok { sim with
    outputs := ⟨sim.outputs.layout, sim.outputs.layout.pack
      (graph.outputNumber (fun k => sim.inputs.numbers.getD k 0) values) 0 sim.outputs.layout.members
      sim.outputs.data⟩ } :=
  serves.computedAt sized sized' room (serves.outputSmall sized wellFormed settled)
    ((serves.computesSettled sized room wellFormed settled).at 2 _)

theorem shows : ∃ after, sim.compute = .ok after ∧ after.outputs.data.size = sim.outputs.layout.size ∧
      ∀ (k : Nat) (output : Port × Source) (member : Member), graph.outputs[k]? = some output →
        sim.outputs.layout.members[k]? = some member → after.outputs.value member =
          output.2.value (fun k => sim.inputs.numbers.getD k 0) values :=
  serves.showsAt sized sized' room (serves.outputSmall sized wellFormed settled)
    ((serves.computesSettled sized room wellFormed settled).at 2 _)

theorem updated : sim.update =
    .ok { sim with state := Graph.advance (fun k => sim.inputs.numbers.getD k 0) values sim.state graph.nodes } :=
  serves.updatedAt sized sized' room ((wellFormed.updates (serves.numbersFit sized) (by omega) settled).at 1)

end WellFormed

end Serves

end CircuitSim.Simulator
