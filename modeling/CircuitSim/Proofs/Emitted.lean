import CircuitSim.Proofs.Snapshot
import CircuitSim.Proofs.Typing

/-! The code of a graph and the code of its wrappers fit, because the order of the graph gives every source its value
before it is asked for. Main statement: `emittedFits`. -/
namespace CircuitSim

open Emit

namespace Graph
open Schedule (makers)

section Bodies

variable {graph : Graph}

def Measured (scope : Scope) (signals : Signals) (source : Source) (width : Nat) : Prop :=
  ∃ ref, signals.get? source = some ref ∧ scope.shape? ref = some (.int width)

structure Measures (graph : Graph) (scope : Scope) (signals : Signals) (done : List Nat) : Prop where
  inputs : ∀ k port, graph.inputs[k]? = some port → Measured scope signals (.input k) port.width
  nodes : ∀ i ∈ done, ∀ node, graph.nodes[i]? = some node → Measured scope signals (.node i) node.primitive.width
  size : signals.nodes.size = graph.nodes.length

variable {signature : Signature} {scope scope' : Scope} {signals : Signals} {done : List Nat} {state : Ref}

theorem Measured.grow {source : Source} {width : Nat} (measured : Measured scope signals source width)
    (grows : scope <+: scope') : Measured scope' signals source width :=
  measured.imp fun _ both => ⟨both.1, Scope.shapeGrown grows both.2⟩

theorem Measures.grow (measures : graph.Measures scope signals done) (grows : scope <+: scope') :
    graph.Measures scope' signals done :=
  ⟨fun k port here => (measures.inputs k port here).grow grows,
    fun i mem node here => (measures.nodes i mem node here).grow grows, measures.size⟩

theorem Measures.set {i : Nat} {ref : Ref} (measures : graph.Measures scope signals done) {node : Node}
    (here : graph.nodes[i]? = some node) (is : scope.shape? ref = some (.int node.primitive.width)) :
    graph.Measures scope (signals.set i ref) (done ++ [i]) := by
  obtain ⟨inside, -⟩ := List.getElem?_eq_some_iff.mp here
  refine ⟨measures.inputs, fun j mem other here' => ?_, Signals.sizeSet.trans measures.size⟩
  by_cases own : j = i
  · subst own
    obtain rfl := Option.some.inj (here.symm.trans here')
    exact ⟨ref, Signals.getOwn (measures.size ▸ inside), is⟩
  · rw [Measured, Signals.getOther fun same => own (Source.node.inj same)]
    exact measures.nodes j ((List.mem_append.mp mem).resolve_right fun last => own (List.mem_singleton.mp last)) other here'

theorem Measures.source {source : Source} {width : Nat} (measures : graph.Measures scope signals done)
    (known : graph.width? source = some width) (ready : graph.Ready done source) :
    Measured scope signals source width := by
  cases source with
  | input k =>
    obtain ⟨port, here, rfl⟩ := Option.map_eq_some_iff.mp known
    exact measures.inputs k port here
  | node i =>
    obtain ⟨node, here, rfl⟩ := Option.map_eq_some_iff.mp known
    exact measures.nodes i ready node here

variable (wellFormed : graph.WellFormed)
include wellFormed

omit wellFormed in
theorem paramsFirst (more : List Param) (k : Nat) (port : Port) (here : graph.inputs[k]? = some port) :
    (graph.inputParams ++ more)[k]? = some (.int port.width) := by
  obtain ⟨inside, -⟩ := List.getElem?_eq_some_iff.mp here
  rw [List.getElem?_append_left (by simpa [inputParams] using inside), inputParams, List.getElem?_map, here, Option.map_some]

omit wellFormed in
theorem paramsChecks (ports : ∀ port ∈ graph.inputs, 0 < port.width ∧ port.width ≤ 128)
    (given : ∀ (k : Nat) (port : Port), graph.inputs[k]? = some port → signature.params[k]? = some (Param.int port.width)) :
    Checks signature scope graph.params fun scope' refs => ∀ (k : Nat) (port : Port), graph.inputs[k]? = some port →
      ∃ ref, refs[k]? = some ref ∧ scope'.shape? ref = some (.int port.width) := by
  have each : ∀ k ∈ List.range graph.inputs.length, ∀ scope' : Scope, scope <+: scope' →
      Makes signature scope' (Emit.param k) (.int (graph.inputs.getD k default).width) := by
    intro k mem scope' _
    have here := List.getElem?_eq_getElem (List.mem_range.mp mem)
    rw [List.getD_eq_getElem?_getD, here, Option.getD_some]
    exact paramMakes (given k _ here) (ports _ (List.getElem_mem _))
  apply (mapChecks _ each).mono
  intro refs scope' _ all k port here
  obtain ⟨inside, -⟩ := List.getElem?_eq_some_iff.mp here
  obtain ⟨ref, found, is⟩ := Result.forallAt all.flip (List.getElem?_range inside)
  refine ⟨ref, found, is.trans ?_⟩
  rw [List.getD_eq_getElem?_getD, here, Option.getD_some]

theorem computeNodeChecks {i : Nat} (inside : i < graph.nodes.length)
    (reads : ∀ k ∈ (graph.node i).primitive.reads,
      ∃ source, (graph.node i).inputs[k]? = some source ∧ graph.Ready done source)
    (measures : graph.Measures scope signals done) (points : scope.shape? state = some .ptr) :
    Checks signature scope (graph.computeNode state signals i) fun scope' signals' =>
      graph.Measures scope' signals' (done ++ [i]) := by
  have mem := nodeMem inside
  have here := nodeHere inside
  obtain ⟨args, got, shapes⟩ := @Signals.readsGathered signals (graph.node i)
    (fun k ref => ∀ pin, (graph.node i).primitive.inputs[k]? = some pin → scope.shape? ref = some (.int pin.2))
    fun k read => by
      obtain ⟨source, found, ready⟩ := reads k read
      obtain ⟨pin, here, width⟩ := pinAt wellFormed.toWired mem found
      obtain ⟨ref, known, is⟩ := measures.source width ready
      refine ⟨source, found, ref, known, fun pin' here' => ?_⟩
      obtain rfl := Option.some.inj (here.symm.trans here')
      exact is
  rw [computeNode, ofFound here, pureBind, got, pureBind]
  apply Makes.bind (offsetMakes _ points)
  intro slice scope₁ grows₁ hs
  have fed : ∀ j k pin, (graph.node i).primitive.reads[j]? = some k → (graph.node i).primitive.inputs[k]? = some pin →
      scope₁.shape? (args.getD j 0) = some (.int pin.2) := fun j k pin read known =>
    Scope.shapeGrown grows₁ (shapes j k read pin known)
  apply Makes.bind (Primitive.computeMakes (wellFormed.valid _ mem) hs fed)
  intro value scope₂ grows₂ hv
  exact .pure ((measures.grow (grows₁.trans grows₂)).set here hv)

variable (supplied : graph.Supplied)
include supplied

theorem foldChecks {rest : List Nat} (split : graph.order = done ++ rest) (measures : graph.Measures scope signals done)
    (points : scope.shape? state = some .ptr) :
    Checks signature scope (rest.foldlM (graph.computeNode state) signals) fun scope' signals' =>
      graph.Measures scope' signals' graph.order := by
  induction rest generalizing done scope signals with
  | nil =>
    rw [List.append_nil] at split
    exact .pure (split ▸ measures)
  | cons i rest ih =>
    rw [List.foldlM_cons]
    have inside := supplied.nodes i (split ▸ List.mem_append_right done List.mem_cons_self)
    apply Checks.bind (computeNodeChecks wellFormed inside (supplied.reads done i rest split) measures points)
    intro signals' scope' grows measures'
    exact ih (by rw [split, List.append_assoc, List.singleton_append]) measures' (Scope.shapeGrown grows points)

theorem signalsChecks {refs : List Ref}
    (given : ∀ (k : Nat) (port : Port), graph.inputs[k]? = some port →
      ∃ ref, refs[k]? = some ref ∧ scope.shape? ref = some (.int port.width))
    (points : scope.shape? state = some .ptr) :
    Checks signature scope (graph.signals refs state) fun scope' signals => graph.Measures scope' signals graph.order :=
  foldChecks wellFormed supplied (List.nil_append graph.order).symm
    ⟨given, fun _ mem => absurd mem List.not_mem_nil, Array.size_replicate⟩ points

section Prologue

variable (given : ∀ (k : Nat) (port : Port), graph.inputs[k]? = some port → signature.params[k]? = some (Param.int port.width))
  (owned : signature.params[graph.inputs.length]? = some Param.ptr)
include given owned

theorem prologueChecks : Checks signature scope graph.prologue fun scope' made =>
    scope'.shape? made.2 = some .ptr ∧ graph.Measures scope' made.1 graph.order := by
  unfold prologue
  apply Checks.bind (paramsChecks wellFormed.inputs given)
  intro refs scope₁ grows₁ inputs
  apply Makes.bind (ptrMakes owned)
  intro state scope₂ grows₂ points
  apply Checks.bind (signalsChecks wellFormed supplied
    (fun k port here => (inputs k port here).imp fun _ both => ⟨both.1, Scope.shapeGrown grows₂ both.2⟩) points)
  intro signals scope₃ grows₃ measures
  exact .pure ⟨Scope.shapeGrown grows₃ points, measures⟩

end Prologue

omit wellFormed supplied in
theorem storeOutputsChecks {outputs : List (Port × Source)} {first : Nat}
    (known : ∀ output ∈ outputs, Measured scope signals output.2 output.1.width)
    (given : ∀ k < outputs.length, signature.params[first + k]? = some .ptr) :
    Checks signature scope (storeOutputs signals first outputs) fun _ _ => True := by
  induction outputs generalizing first scope with
  | nil => exact .pure trivial
  | cons output rest ih =>
    obtain ⟨ref, got, is⟩ := known output List.mem_cons_self
    rw [storeOutputs, Signals.get, ofFound got]
    apply Makes.bind (ptrMakes (given 0 (Nat.zero_lt_succ _)))
    intro ptr scope₁ grows₁ points
    have own := Scope.shapeGrown grows₁ is
    rw [pureBind]
    apply Checks.bind (storeChecks (Scope.holdsContainer.mpr (Scope.shapeHolds own)) points (Width.containerBytes_pos _)
      (Width.containerLe _))
    rintro ⟨⟩ scope₂ grows₂ -
    refine ih (fun other mem => (known other (List.mem_cons_of_mem output mem)).grow (grows₁.trans grows₂))
      fun k inside => ?_
    rw [Nat.add_right_comm]
    exact given (k + 1) (Nat.succ_lt_succ inside)

theorem computeBodyChecks (callees : Nat → Option (List Param)) :
    Checks ⟨graph.computeParams, callees⟩ scope graph.computeBody fun _ _ => True := by
  have count : graph.inputParams.length = graph.inputs.length := List.length_map _
  rw [computeBody, prologueBind]
  apply Checks.bind (prologueChecks wellFormed supplied (paramsFirst _) (by simp [computeParams, ← count]))
  rintro ⟨signals, state⟩ scope' grows ⟨-, measures⟩
  apply storeOutputsChecks
  · intro output mem
    exact measures.source (wellFormed.outputs output mem).1 (supplied.outputs output mem)
  · intro k inside
    have behind : graph.inputs.length + 1 + k - graph.inputParams.length = k + 1 := by omega
    rw [computeParams, List.getElem?_append_right (by omega), behind, List.getElem?_cons_succ, List.getElem?_map,
      List.getElem?_eq_getElem inside, Option.map_some]

theorem storeNodeChecks {node : Node} (mem : node ∈ graph.nodes) (points : scope.shape? state = some .ptr)
    (measures : graph.Measures scope signals graph.order) :
    Checks signature scope (storeNode signals state node) fun _ _ => True := by
  obtain ⟨args, got, shapes⟩ := @Signals.inputsGathered signals node
    (fun k ref => ∀ pin, node.primitive.inputs[k]? = some pin → scope.shape? ref = some (.int pin.2))
    fun k source found => by
      obtain ⟨pin, here, width⟩ := pinAt wellFormed.toWired mem found
      obtain ⟨ref, known, is⟩ := measures.source width (supplied.operands node mem source (List.mem_of_getElem? found))
      refine ⟨ref, known, fun pin' here' => ?_⟩
      obtain rfl := Option.some.inj (here.symm.trans here')
      exact is
  rw [storeNode, got, pureBind]
  split
  · apply Makes.bind (offsetMakes _ points)
    intro slice scope' grows hs
    refine Primitive.updateChecks (wellFormed.valid node mem) hs fun k pin here => ?_
    obtain ⟨source, found, -⟩ := sourceAt wellFormed.toWired mem here
    exact Scope.shapeGrown grows (shapes k source found pin here)
  · exact .pure trivial

theorem updateNodesChecks {nodes : List Node} (known : ∀ node ∈ nodes, node ∈ graph.nodes)
    (points : scope.shape? state = some .ptr) (measures : graph.Measures scope signals graph.order) :
    Checks signature scope (updateNodes signals state nodes) fun _ _ => True := by
  induction nodes generalizing scope with
  | nil => exact .pure trivial
  | cons node rest ih =>
    rw [updateNodesCons]
    apply Checks.bind (storeNodeChecks wellFormed supplied (known node List.mem_cons_self) points measures)
    rintro ⟨⟩ scope' grows -
    exact ih (fun other mem => known other (List.mem_cons_of_mem node mem)) (Scope.shapeGrown grows points)
      (measures.grow grows)

theorem updateBodyChecks (callees : Nat → Option (List Param)) :
    Checks ⟨graph.updateParams, callees⟩ scope graph.updateBody fun _ _ => True := by
  have count : graph.inputParams.length = graph.inputs.length := List.length_map _
  rw [updateBody, prologueBind]
  apply Checks.bind (prologueChecks wellFormed supplied (paramsFirst _) (by simp [updateParams, ← count]))
  rintro ⟨signals, state⟩ scope' grows ⟨points, measures⟩
  exact updateNodesChecks wellFormed supplied (fun _ mem => mem) points measures

omit wellFormed supplied in
theorem storeTapsChecks {record : Ref} {taps : List Tap} {members : List Member}
    (regular : ∀ member ∈ members, Regular member.placement) (widths : members.map (·.width) = taps.map (·.width))
    (known : ∀ tap ∈ taps, Measured scope signals tap.source tap.width)
    (points : scope.shape? record = some .ptr) :
    Checks signature scope (storeTaps signals record (taps.zip (members.map (·.placement)))) fun _ _ => True := by
  induction members generalizing taps scope with
  | nil =>
    rw [List.map_nil, List.zip_nil_right]
    exact .pure trivial
  | cons member members ih =>
    cases taps with
    | nil => exact .pure trivial
    | cons tap taps =>
      have width : member.width = tap.width := (List.cons.inj widths).1
      obtain ⟨ref, got, is⟩ := known tap List.mem_cons_self
      have given := Scope.shapeHolds is
      rw [← width] at given
      rw [List.map_cons, List.zip_cons_cons, storeTaps, Signals.get, ofFound got, pureBind]
      apply Checks.bind (storeFieldChecks points (regular member List.mem_cons_self) given)
      rintro ⟨⟩ scope' grows -
      exact ih (fun other mem => regular other (List.mem_cons_of_mem member mem)) (List.cons.inj widths).2
        (fun other mem => (known other (List.mem_cons_of_mem tap mem)).grow grows) (Scope.shapeGrown grows points)

theorem captureBodyChecks (shown : graph.TapsFit) {layout : Layout} (callees : Nat → Option (List Param))
    (regular : ∀ member ∈ layout.members, Regular member.placement)
    (widths : layout.members.map (·.width) = graph.taps.map (·.width)) :
    Checks ⟨graph.captureParams, callees⟩ scope (graph.captureBody layout) fun _ _ => True := by
  have count : graph.inputParams.length = graph.inputs.length := List.length_map _
  have params : graph.captureParams = graph.inputParams ++ [.ptr, .ptr] := by simp [captureParams, updateParams]
  rw [params]
  unfold captureBody
  apply Checks.bind (paramsChecks wellFormed.inputs (paramsFirst _))
  intro refs scope₁ grows₁ inputs
  apply Makes.bind (ptrMakes (by simp [← count]))
  intro state scope₂ grows₂ points
  apply Makes.bind (ptrMakes (by simp [← count]))
  intro record scope₃ grows₃ target
  apply Checks.bind (signalsChecks wellFormed supplied
    (fun k port here => (inputs k port here).imp fun _ both =>
      ⟨both.1, Scope.shapeGrown (grows₂.trans grows₃) both.2⟩) (Scope.shapeGrown grows₃ points))
  intro signals scope₄ grows₄ measures
  exact storeTapsChecks regular widths (fun tap mem => measures.source (shown tap mem) (supplied.taps tap mem))
    (Scope.shapeGrown grows₄ target)

end Bodies

end Graph

theorem Layout.fieldsRegular {rules : Rules} {list : List (String × Nat)} {layout : Layout}
    (ok : ofMembers rules list = .ok layout) (narrow : ∀ entry ∈ list, entry.2 ≤ 128) :
    (∀ member ∈ layout.members, Regular member.placement) ∧ layout.members.map (·.width) = list.map (·.2) := by
  obtain ⟨placed, -, entries⟩ := ofMembersPlaced ok
  refine ⟨fun member mem => ?_, ?_⟩
  · obtain ⟨positive, storage, -⟩ := placed.placed member mem
    have listed : (member.name, member.width) ∈ list := entries ▸ List.mem_map_of_mem mem
    exact ⟨positive, narrow _ listed, storage⟩
  · rw [← entries, List.map_map]
    rfl

namespace Wrapper

variable {signature : Signature} {scope : Scope} {graph : Graph} {inputs outputs : Layout} {callee : Nat}

theorem loadRecordChecks {layout : Layout} {ptr : Ref} (regular : ∀ member ∈ layout.members, Regular member.placement)
    (points : scope.shape? ptr = some .ptr) : Checks signature scope (loadRecord layout ptr) fun scope' refs =>
      List.Forall₂ (fun ref (member : Member) => scope'.shape? ref = some (.int member.width)) refs layout.members :=
  mapChecks _ fun member mem _ grows => loadFieldMakes (Scope.shapeGrown grows points) (regular member mem)

theorem storeRecordChecks {members : List (Member × Ref)} {ptr : Ref} (points : scope.shape? ptr = some .ptr)
    (known : ∀ entry ∈ members, Regular entry.1.placement ∧ scope.shape? entry.2 = some .ptr) :
    Checks signature scope (storeRecord ptr members) fun _ _ => True := by
  induction members generalizing scope with
  | nil => exact .pure trivial
  | cons entry rest ih =>
    obtain ⟨regular, slot⟩ := known entry List.mem_cons_self
    rw [storeRecord]
    apply Makes.bind (loadMakes 0 slot (Width.containerBytes_pos _) (Width.containerLe _))
    intro value scope₁ grows₁ hv
    have given : scope₁.Holds value entry.1.width := by
      rw [Scope.Holds, ← Width.containerAgain]
      exact Scope.shapeHolds hv
    apply Checks.bind (storeFieldChecks (Scope.shapeGrown grows₁ points) regular given)
    rintro ⟨⟩ scope₂ grows₂ -
    have grown := grows₁.trans grows₂
    exact ih (Scope.shapeGrown grown points) fun other mem =>
      ⟨(known other (List.mem_cons_of_mem entry mem)).1,
        Scope.shapeGrown grown (known other (List.mem_cons_of_mem entry mem)).2⟩

theorem inputsPassed {refs : List Ref} (widths : inputs.members.map (·.width) = graph.inputs.map (·.width))
    (known : List.Forall₂ (fun ref (member : Member) => scope.shape? ref = some (.int member.width)) refs inputs.members) :
    List.Forall₂ scope.Passes refs graph.inputParams := by
  have params : graph.inputParams = inputs.members.map fun member => .int member.width := by
    have same := congrArg (List.map Param.int) widths
    rw [List.map_map, List.map_map] at same
    exact same.symm
  rw [params, List.forall₂_map_right_iff]
  exact known.imp fun _ _ => Scope.shapePasses

variable (regular : ∀ member ∈ inputs.members, Regular member.placement)
  (widths : inputs.members.map (·.width) = graph.inputs.map (·.width))
include regular widths

theorem computeBodyChecks (regular' : ∀ member ∈ outputs.members, Regular member.placement)
    (count : outputs.members.length = graph.outputs.length) {callees : Nat → Option (List Param)}
    (known : callees callee = some graph.computeParams) :
    Checks ⟨[.ptr, .ptr, .ptr], callees⟩ scope (computeBody inputs outputs callee) fun _ _ => True := by
  unfold computeBody
  apply Makes.bind (ptrMakes rfl)
  intro input scope₁ grows₁ input₁
  apply Makes.bind (ptrMakes rfl)
  intro output scope₂ grows₂ output₂
  apply Makes.bind (ptrMakes rfl)
  intro state scope₃ grows₃ state₃
  apply Checks.bind (loadRecordChecks regular (Scope.shapeGrown (grows₂.trans grows₃) input₁))
  intro args scope₄ grows₄ args₄
  apply Checks.bind (mapChecks (fun _ => .ptr) fun _ _ _ _ => opMakes (o := .slot _) trivial trivial)
  intro slots scope₅ grows₅ slots₅
  have passed : List.Forall₂ scope₅.Passes (args ++ state :: slots) graph.computeParams := by
    have first := inputsPassed widths (args₄.imp fun _ _ is => Scope.shapeGrown grows₅ is)
    have behind : graph.outputs.map (fun _ => Param.ptr) = outputs.members.map fun _ => Param.ptr := by
      rw [List.map_const', List.map_const', count]
    refine List.rel_append first (.cons (Scope.shapeGrown (grows₄.trans grows₅) state₃) ?_)
    rw [behind, List.forall₂_map_right_iff]
    exact slots₅
  apply Checks.bind (callChecks known passed)
  rintro ⟨⟩ scope₆ grows₆ -
  refine storeRecordChecks (Scope.shapeGrown (grows₃.trans (grows₄.trans (grows₅.trans grows₆))) output₂)
    fun entry mem => ?_
  obtain ⟨member, slot⟩ := List.of_mem_zip mem
  obtain ⟨_, -, is⟩ := Result.forallMem slots₅.flip _ slot
  exact ⟨regular' _ member, Scope.shapeGrown grows₆ is⟩

theorem updateBodyChecks {callees : Nat → Option (List Param)} (known : callees callee = some graph.updateParams) :
    Checks ⟨[.ptr, .ptr], callees⟩ scope (updateBody inputs callee) fun _ _ => True := by
  unfold updateBody
  apply Makes.bind (ptrMakes rfl)
  intro input scope₁ grows₁ input₁
  apply Makes.bind (ptrMakes rfl)
  intro state scope₂ grows₂ state₂
  apply Checks.bind (loadRecordChecks regular (Scope.shapeGrown grows₂ input₁))
  intro args scope₃ grows₃ args₃
  exact callChecks known (List.rel_append (inputsPassed widths args₃) (.cons (Scope.shapeGrown grows₃ state₂) .nil))

theorem captureBodyChecks {callees : Nat → Option (List Param)} (known : callees callee = some graph.captureParams) :
    Checks ⟨[.ptr, .ptr, .ptr], callees⟩ scope (captureBody inputs callee) fun _ _ => True := by
  unfold captureBody
  apply Makes.bind (ptrMakes rfl)
  intro input scope₁ grows₁ input₁
  apply Makes.bind (ptrMakes rfl)
  intro state scope₂ grows₂ state₂
  apply Makes.bind (ptrMakes rfl)
  intro taps scope₃ grows₃ taps₃
  apply Checks.bind (loadRecordChecks regular (Scope.shapeGrown (grows₂.trans grows₃) input₁))
  intro args scope₄ grows₄ args₄
  have passed : List.Forall₂ scope₄.Passes (args ++ [state, taps]) (graph.inputParams ++ [.ptr, .ptr]) :=
    List.rel_append (inputsPassed widths args₄) (.cons (Scope.shapeGrown (grows₃.trans grows₄) state₂)
      (.cons (Scope.shapeGrown grows₄ taps₃) .nil))
  exact callChecks known (by simpa [Graph.captureParams, Graph.updateParams] using passed)

end Wrapper

/- A body is emitted, its code fits, and whatever it is run on, it shifts within containers. -/
def Emit.Sound (body : Emit Unit) (signature : Signature) : Prop :=
  ∃ code, body.code = .ok code ∧ code.Fits signature [] ∧ ∀ (context : Context) (params : List Value) (memory : Memory),
    ∀ shift ∈ code.shifts context (.ofParams params) memory, shift.2 < Width.containerBits shift.1

theorem Emit.Checks.sound {signature : Signature} {body : Emit Unit} {mid : Scope → Unit → Prop}
    (checks : Checks signature [] body mid) : body.Sound signature := by
  obtain ⟨code, emitted, fits⟩ := checks.body
  exact ⟨code, emitted, fits, fun context params memory => Code.shiftsWithin fits (.start params) context memory⟩

/- A function that calls one function. -/
def Signature.calling (params : List Param) (callee : Nat) (inner : List Param) : Signature :=
  ⟨params, fun function => if function = callee then some inner else none⟩

theorem Signature.callingInner (params : List Param) {inner : List Param} {callee : Nat} :
    (calling params callee inner).callees callee = some inner := if_pos rfl

theorem Simulator.recordRegular {rules : Rules} {ports : List Port} {record : Record}
    (packed : Simulator.record rules ports = .ok record) (narrow : ∀ port ∈ ports, port.width ≤ 128) :
    (∀ member ∈ record.layout.members, Regular member.placement) ∧
      record.layout.members.map (·.width) = ports.map (·.width) := by
  obtain ⟨layout, placed, rfl⟩ := Result.okMap packed
  obtain ⟨regular, widths⟩ := Layout.fieldsRegular placed fun entry mem => by
    obtain ⟨port, listed, rfl⟩ := List.mem_map.mp mem
    exact narrow port listed
  rw [List.map_map] at widths
  exact ⟨regular, widths⟩

section Records

variable {graph : Graph} (wellFormed : graph.WellFormed) {rules : Rules}
include wellFormed

theorem Graph.capturesSound (shown : graph.TapsFit) {taps : Taps} (made : Taps.ofGraph rules graph = .ok taps) :
    (graph.captureBody taps.region.layout).Sound { params := graph.captureParams } := by
  obtain ⟨region, laidOut, done⟩ := Result.okBind made
  cases done
  obtain ⟨layout, placed, rfl⟩ := Result.okMap laidOut
  obtain ⟨regular, widths⟩ := Layout.fieldsRegular placed fun entry mem => by
    obtain ⟨tap, listed, rfl⟩ := List.mem_map.mp mem
    exact (graph.widthFits wellFormed (shown tap listed)).2
  rw [List.map_map] at widths
  exact (captureBodyChecks wellFormed (supplied wellFormed.toWired shown) shown _ regular widths).sound

variable {inputs : Record} (packed : Simulator.record rules graph.inputs = .ok inputs) (callee : Nat)
include packed

theorem Graph.wrapsCompute {outputs : Record} (packed' : Simulator.record rules (graph.outputs.map (·.1)) = .ok outputs) :
    (Wrapper.computeBody inputs.layout outputs.layout callee).Sound
      (.calling [.ptr, .ptr, .ptr] callee graph.computeParams) := by
  obtain ⟨regular, widths⟩ := Simulator.recordRegular packed fun port mem => (wellFormed.inputs port mem).2
  obtain ⟨regular', widths'⟩ := Simulator.recordRegular packed' fun port mem => by
    obtain ⟨output, known, rfl⟩ := List.mem_map.mp mem
    exact (wellFormed.outputs output known).2.2
  have count := congrArg List.length widths'
  rw [List.length_map, List.length_map, List.length_map] at count
  exact (Wrapper.computeBodyChecks regular widths regular' count (Signature.callingInner [.ptr, .ptr, .ptr])).sound

theorem Graph.wrapsUpdate : (Wrapper.updateBody inputs.layout callee).Sound
    (.calling [.ptr, .ptr] callee graph.updateParams) := by
  obtain ⟨regular, widths⟩ := Simulator.recordRegular packed fun port mem => (wellFormed.inputs port mem).2
  exact (Wrapper.updateBodyChecks regular widths (Signature.callingInner [.ptr, .ptr])).sound

theorem Graph.wrapsCapture : (Wrapper.captureBody inputs.layout callee).Sound
    (.calling [.ptr, .ptr, .ptr] callee graph.captureParams) := by
  obtain ⟨regular, widths⟩ := Simulator.recordRegular packed fun port mem => (wellFormed.inputs port mem).2
  exact (Wrapper.captureBodyChecks regular widths (Signature.callingInner [.ptr, .ptr, .ptr])).sound

end Records

theorem Circuit.flattenChecked {circuit : Circuit} {id : Nat} {graph : Graph}
    (flat : circuit.flatten .builtin id = .ok graph) : graph.WellFormed ∧ graph.TapsFit ∧ graph.Supplied := by
  obtain ⟨design, of, shape⟩ := flattenOf flat
  exact ⟨shape.wellFormed of, shape.tapsFit of, flattenSupplied flat⟩

theorem Emitted.sound {params : List Param} {body : Emit Unit} (emitted : Emitted .builtin params body) :
    ∃ callees, body.Sound ⟨params, callees⟩ := by
  cases emitted with
  | compute flat =>
    obtain ⟨wellFormed, -, supplied⟩ := Circuit.flattenChecked flat
    exact ⟨fun _ => none, (Graph.computeBodyChecks wellFormed supplied _).sound⟩
  | update flat =>
    obtain ⟨wellFormed, -, supplied⟩ := Circuit.flattenChecked flat
    exact ⟨fun _ => none, (Graph.updateBodyChecks wellFormed supplied _).sound⟩
  | capture flat laidOut =>
    obtain ⟨wellFormed, shown, -⟩ := Circuit.flattenChecked flat
    exact ⟨_, Graph.capturesSound wellFormed shown laidOut⟩
  | wrapper wrapping =>
    cases wrapping with
    | compute flat packed packed' callee =>
      exact ⟨_, Graph.wrapsCompute (Circuit.flattenChecked flat).1 packed callee packed'⟩
    | update flat packed callee => exact ⟨_, Graph.wrapsUpdate (Circuit.flattenChecked flat).1 packed callee⟩
    | capture flat packed callee => exact ⟨_, Graph.wrapsCapture (Circuit.flattenChecked flat).1 packed callee⟩

theorem Backend.acceptsFitting {backend : Backend} (takes : ∀ (signature : Signature) (code : Code),
    code.Fits signature [] → backend.refusal? false (signature.params.map Param.bits) code = none) :
    backend.Accepts .builtin := by
  intro params body code emitted written
  obtain ⟨callees, code', written', fits, -⟩ := emitted.sound
  obtain rfl := Except.ok.inj (written.symm.trans written')
  exact takes ⟨params, callees⟩ code fits

/-- The code that is emitted for a graph, and for its wrappers under any layout, is such that each operation finds
operands of the shapes and sizes that it expects, among the values made before it and outside branches that have ended.
No signal is asked for before it has been computed. -/
theorem emittedFits (circuit : Circuit) (id : Nat) (graph : Graph) (flat : circuit.flatten .builtin id = .ok graph)
    (rules : Rules) :
    graph.Supplied ∧ graph.computeBody.Sound { params := graph.computeParams } ∧
      graph.updateBody.Sound { params := graph.updateParams } ∧
      (∀ taps, Taps.ofGraph rules graph = .ok taps →
        (graph.captureBody taps.region.layout).Sound { params := graph.captureParams }) ∧
      ∀ inputs outputs, Simulator.record rules graph.inputs = .ok inputs →
        Simulator.record rules (graph.outputs.map (·.1)) = .ok outputs → ∀ callee,
          (Wrapper.computeBody inputs.layout outputs.layout callee).Sound
            (.calling [.ptr, .ptr, .ptr] callee graph.computeParams) ∧
          (Wrapper.updateBody inputs.layout callee).Sound (.calling [.ptr, .ptr] callee graph.updateParams) ∧
          (Wrapper.captureBody inputs.layout callee).Sound (.calling [.ptr, .ptr, .ptr] callee graph.captureParams) := by
  obtain ⟨wellFormed, shown, supplied⟩ := Circuit.flattenChecked flat
  refine ⟨supplied, (Graph.computeBodyChecks wellFormed supplied _).sound,
    (Graph.updateBodyChecks wellFormed supplied _).sound, fun taps made => Graph.capturesSound wellFormed shown made,
    fun inputs outputs packed packed' callee => ?_⟩
  exact ⟨Graph.wrapsCompute wellFormed packed callee packed', Graph.wrapsUpdate wellFormed packed callee,
    Graph.wrapsCapture wellFormed packed callee⟩

def scratchpad : Circuit := ⟨[{
  name := "scratchpad"
  inputs := [⟨"at", 2⟩, ⟨"word", 5⟩, ⟨"write", 1⟩]
  outputs := [⟨"read", 5⟩]
  instances := [⟨"words", .primitive "mem" [("width", 5), ("depth", 3)]⟩]
  nets := [⟨.own "at", [.of "words" "waddr", .of "words" "raddr"]⟩, ⟨.own "word", [.of "words" "wdata"]⟩,
    ⟨.own "write", [.of "words" "wen"]⟩, ⟨.of "words" "rdata", [.own "read"]⟩] }], none⟩

theorem scratchpadFits : ∃ graph taps inputs outputs, scratchpad.flatten .builtin 0 = .ok graph ∧
    Taps.ofGraph .bitPacked graph = .ok taps ∧ Simulator.record .bitPacked graph.inputs = .ok inputs ∧
    Simulator.record .bitPacked (graph.outputs.map (·.1)) = .ok outputs ∧
    graph.updateBody.Sound { params := graph.updateParams } ∧
    (graph.captureBody taps.region.layout).Sound { params := graph.captureParams } ∧
    (Wrapper.computeBody inputs.layout outputs.layout 0).Sound (.calling [.ptr, .ptr, .ptr] 0 graph.computeParams) := by
  let packed (graph : Graph) : Bool := (Taps.ofGraph .bitPacked graph).toOption.any (fun _ => true) &&
    (Simulator.record .bitPacked graph.inputs).toOption.any (fun _ => true) &&
    (Simulator.record .bitPacked (graph.outputs.map (·.1))).toOption.any fun _ => true
  obtain ⟨graph, flat, laidOut⟩ := Result.okAny (show (scratchpad.flatten .builtin 0).toOption.any packed = true by
    decide +kernel)
  simp only [packed, Bool.and_eq_true] at laidOut
  obtain ⟨taps, made, -⟩ := Result.okAny laidOut.1.1
  obtain ⟨inputs, placed, -⟩ := Result.okAny laidOut.1.2
  obtain ⟨outputs, placed', -⟩ := Result.okAny laidOut.2
  obtain ⟨-, -, updates, captures, wrappers⟩ := emittedFits scratchpad 0 graph flat .bitPacked
  exact ⟨graph, taps, inputs, outputs, flat, made, placed, placed', updates, captures taps made,
    (wrappers inputs outputs placed placed' 0).1⟩

end CircuitSim
