import CircuitSim.Proofs.Labelling
import CircuitSim.Proofs.Snapshot

/-! A tap shows the number at its pin: the one that nets bring there from where it is made, under the inputs that are
staged and the state of now. Main statement: `tapShowsPin`. -/
namespace CircuitSim

/- The primitive at an instance path, as a library builds it there. -/
inductive Circuit.BuiltAt (circuit : Circuit) (library : Library) (root : Nat) : List String → Primitive → Prop
  | inside {path : List String} {id : Nat} {inst : Instance} {kind : String} {args : Args} {primitive : Primitive}
      (outer : circuit.Within root path id) (mem : inst ∈ (circuit.definition id).instances)
      (part : inst.part = .primitive kind args)
      (built : library.build kind args (".".intercalate (path ++ [inst.name])) = .ok primitive) :
      BuiltAt circuit library root (path ++ [inst.name]) primitive

/- The inputs of the instances at all depths, with their widths. -/
inductive Circuit.InputAt (circuit : Circuit) (library : Library) (root : Nat) : List String × String → Nat → Prop
  | port {path : List String} {id : Nat} {port : Port} (within : circuit.Within root path id) (below : path ≠ [])
      (mem : port ∈ (circuit.definition id).inputs) : InputAt circuit library root (path, port.name) port.width
  | pin {path : List String} {primitive : Primitive} {pin : Port} (built : circuit.BuiltAt library root path primitive)
      (mem : pin ∈ primitive.interface.inputs) : InputAt circuit library root (path, pin.name) pin.width

namespace Circuit

variable {circuit : Circuit} {library : Library} {root : Nat}

theorem withinSame (named : circuit.Named) {path : List String} {id id' : Nat} (within : circuit.Within root path id)
    (within' : circuit.Within root path id') : id = id' := by
  induction within generalizing id' with
  | root =>
    generalize same : ([] : List String) = path at within'
    cases within' with
    | root => rfl
    | inside => exact absurd same.symm (by simp)
  | @inside path id child inst name outer mem part found ih =>
    generalize same : path ++ [inst.name] = path' at within'
    cases within' with
    | root => exact absurd same (by simp)
    | @inside path' id' child' inst' name' outer' mem' part' found' =>
      obtain ⟨rfl, last⟩ := List.append_inj' same rfl
      obtain rfl := ih outer'
      obtain rfl := List.inj_on_of_nodup_map (named.instances id) mem mem' (List.singleton_inj.mp last)
      obtain rfl := Part.definition.inj (part.symm.trans part')
      exact Except.ok.inj (found.symm.trans found')

theorem builtSame (named : circuit.Named) {path : List String} {primitive primitive' : Primitive}
    (built : circuit.BuiltAt library root path primitive) (built' : circuit.BuiltAt library root path primitive') :
    primitive = primitive' := by
  cases built with
  | @inside path id inst kind args _ outer mem part made =>
    generalize same : path ++ [inst.name] = path' at built'
    cases built' with
    | @inside path' id' inst' kind' args' _ outer' mem' part' made' =>
      obtain ⟨rfl, last⟩ := List.append_inj' same rfl
      obtain rfl := withinSame named outer outer'
      obtain rfl := List.inj_on_of_nodup_map (named.instances id) mem mem' (List.singleton_inj.mp last)
      obtain ⟨rfl, rfl⟩ := Part.primitive.inj (part.symm.trans part')
      exact Except.ok.inj (made.symm.trans made')

end Circuit

namespace Hierarchy

variable {circuit : Circuit} {library : Library} {root : Nat}

theorem leavesBuilt {depth : Nat} {path : List String} {id : Nat} {wires : List Wire} {body : Hierarchy}
    (ok : expand circuit library depth path id = .ok (wires, body)) (within : circuit.Within root path id) :
    ∀ definition place i, ∀ leaf ∈ body.leaves definition path place i,
      circuit.BuiltAt library root leaf.path leaf.primitive := by
  refine @expandWithin circuit library root (fun path id body => ∀ definition place i,
    ∀ leaf ∈ body.leaves definition path place i, circuit.BuiltAt library root leaf.path leaf.primitive)
    (fun _ _ _ _ _ => nofun) ?primitive ?scope _ _ _ _ _ ok within
  case primitive =>
    intro path id inst kind args made tail outer mem part built behind definition place i
    exact List.forall_mem_cons.mpr ⟨.inside outer mem part built, behind definition place (i + 1)⟩
  case scope =>
    intro path id inst name child wires inner tail outer mem part found inside behind definition place i
    exact List.forall_mem_append.mpr ⟨inside child (i :: place) 0, behind definition place (i + 1)⟩

end Hierarchy

structure Design.Built (design : Design) (circuit : Circuit) (library : Library) (root : Nat) : Prop where
  of : design.Of circuit library root
  leaves : ∀ leaf ∈ design.leaves, circuit.BuiltAt library root leaf.path leaf.primitive

theorem Design.ofCircuitBuilt {circuit : Circuit} {library : Library} {root : Nat} {design : Design}
    (ok : Design.ofCircuit circuit library root = .ok design) : design.Built circuit library root := by
  refine ⟨Design.ofCircuitOf ok, ?_⟩
  obtain ⟨⟨wires, body⟩, expanded, done⟩ := Result.okBind ok
  cases done
  exact Hierarchy.leavesBuilt expanded .root _ _ _

namespace Design.Built

variable {design : Design} {circuit : Circuit} {library : Library} {root : Nat}
  (built : design.Built circuit library root)
include built

theorem itemBuilt {place : Place} {name : String} {primitive : Primitive}
    (here : design.item? place = some (.primitive name primitive)) :
    circuit.BuiltAt library root (design.path place) primitive := by
  obtain ⟨leaf, found, rfl⟩ := findLeaf here
  have mem := List.mem_of_getElem? found
  obtain ⟨path, name', entry⟩ := leavesEntry leaf mem
  rw [here] at entry
  cases entry
  exact path ▸ built.leaves leaf mem

theorem builtItem (named : circuit.Named) {path : List String} {primitive : Primitive}
    (inside : circuit.BuiltAt library root path primitive) :
    ∃ place name, design.item? place = some (.primitive name primitive) ∧ design.path place = path := by
  obtain ⟨place, name, other, item, same⟩ : ∃ place name other,
      design.item? place = some (.primitive name other) ∧ design.path place = path := by
    cases inside with
    | @inside path id inst kind args _ outer mem part =>
      obtain ⟨place, wires, body, found, rfl, -, expanded⟩ := built.of.withinPlace outer
      obtain ⟨i, here⟩ := List.mem_iff_getElem?.mp mem
      obtain ⟨entry, known, expands⟩ := expanded.instanceAt here
      have item := (entryIn found).trans known
      have path := pathIn item
      rw [expands.name] at path
      cases expands with
      | scope part' => exact nomatch part.symm.trans part'
      | primitive => exact ⟨_, _, _, item, path⟩
  have inside' := built.itemBuilt item
  rw [same] at inside'
  obtain rfl := Circuit.builtSame named inside' inside
  exact ⟨place, name, item, same⟩

theorem itemInput {place : Place} {entry : Entry} (item : design.item? place = some entry) {port : Port}
    (mem : port ∈ entry.interface.inputs) : circuit.InputAt library root (design.path place, port.name) port.width := by
  cases entry with
  | primitive name primitive => exact .pin (built.itemBuilt item) mem
  | scope name child interface wires inner =>
    cases place with
    | nil => exact nomatch item
    | cons i place =>
      obtain ⟨outer, body, found, known⟩ := itemScope item
      obtain ⟨id, within, interfaced, -⟩ := built.of.scopeAt (scopeIn found known)
      rw [interfaceIn item] at interfaced
      have ports : interface = (circuit.definition id).interface := interfaced
      refine .port within ?_ ?_
      · rw [pathIn item]
        exact List.append_ne_nil_of_right_ne_nil _ (List.cons_ne_nil _ _)
      · rw [Entry.interface, ports] at mem
        exact mem

theorem inputItem (named : circuit.Named) {path : List String} {pin : String} {width : Nat}
    (input : circuit.InputAt library root (path, pin) width) : ∃ place entry, design.item? place = some entry ∧
      design.path place = path ∧ Port.mk pin width ∈ entry.interface.inputs := by
  cases input with
  | pin inside mem =>
    obtain ⟨place, name, item, path⟩ := built.builtItem named inside
    exact ⟨place, _, item, path, mem⟩
  | port within below mem =>
    obtain ⟨place, wires, body, found, rfl, interface, -⟩ := built.of.withinPlace within
    rcases presentScope found with rfl | ⟨entry, item⟩
    · exact absurd rfl below
    · rw [interfaceIn item] at interface
      refine ⟨place, entry, item, rfl, ?_⟩
      rw [interface]
      exact mem

end Design.Built

structure Design.Made (design : Design) (circuit : Circuit) (library : Library) (root : Nat) (graph : Graph) :
    Prop where
  of : design.Of circuit library root
  flat : design.Flat graph
  leaves : ∀ leaf ∈ design.leaves, circuit.BuiltAt library root leaf.path leaf.primitive

theorem Circuit.flattenMade {circuit : Circuit} {library : Library} {root : Nat} {graph : Graph}
    (ok : circuit.flatten library root = .ok graph) : ∃ design, Design.Made design circuit library root graph := by
  obtain ⟨_, -, ok⟩ := Result.okBind ok
  obtain ⟨design, made, flattened⟩ := Result.okBind ok
  have built := Design.ofCircuitBuilt made
  exact ⟨design, built.of, Design.flattenFlat flattened, built.leaves⟩

namespace Design.Made

variable {design : Design} {circuit : Circuit} {library : Library} {root : Nat} {graph : Graph}
  (made : design.Made circuit library root graph)
include made

theorem built : design.Built circuit library root := ⟨made.of, made.leaves⟩

theorem covers (named : circuit.Named) : graph.Covers (circuit.BuiltAt library root) := by
  refine ⟨fun node mem => ?_, fun path primitive built => ?_⟩
  · obtain ⟨leaf, member, stands⟩ := Result.forallMem made.flat.nodes node mem
    rw [stands.path, stands.primitive]
    exact made.leaves leaf member
  · obtain ⟨place, name, item, rfl⟩ := made.built.builtItem named built
    obtain ⟨leaf, at', rfl⟩ := findLeaf item
    obtain ⟨node, here, stands⟩ := Result.forallAt made.flat.nodes at'
    obtain ⟨path, name', item'⟩ := leavesEntry leaf (List.mem_of_getElem? at')
    rw [item] at item'
    cases item'
    exact ⟨_, node, here, stands.path.trans path, stands.primitive⟩

theorem tapInput : ∀ tap ∈ graph.taps, circuit.InputAt library root (tap.path, tap.pin) tap.width := by
  intro tap mem
  obtain ⟨k, here⟩ := List.mem_iff_getElem?.mp mem
  obtain ⟨slot, at', path, pin, -⟩ := Result.forallAt made.flat.taps.flip here
  obtain ⟨same, known, width⟩ := Result.forallAt made.flat.tapWidths.flip here
  obtain rfl := Option.some.inj (at'.symm.trans known)
  obtain ⟨place, j, entry, -, spot, item, port⟩ := slotEntry slot (List.mem_of_getElem? at')
  rw [path, pin, width, spot]
  exact made.built.itemInput item (List.mem_of_getElem? port)

theorem inputTapped (named : circuit.Named) {path : List String} {pin : String} {width : Nat}
    (input : circuit.InputAt library root (path, pin) width) :
    ∃ tap ∈ graph.taps, tap.path = path ∧ tap.pin = pin ∧ tap.width = width := by
  obtain ⟨place, entry, item, rfl, mem⟩ := made.built.inputItem named input
  obtain ⟨k, here⟩ := List.mem_iff_getElem?.mp mem
  obtain ⟨_, tap, known, -, path, pin, wide, -⟩ := made.flat.inputMakes made.of item here
  have own := made.flat.tapsFit made.of tap known
  exact ⟨tap, known, path, pin, Option.some.inj (own.symm.trans wide)⟩

theorem tapIff (named : circuit.Named) {path : List String} {pin : String} {width : Nat} :
    (∃ tap ∈ graph.taps, tap.path = path ∧ tap.pin = pin ∧ tap.width = width) ↔
      circuit.InputAt library root (path, pin) width := by
  refine ⟨?_, made.inputTapped named⟩
  rintro ⟨tap, mem, rfl, rfl, rfl⟩
  exact made.tapInput tap mem

theorem tapsDistinct (named : circuit.Named) : (graph.taps.map fun tap => (tap.path, tap.pin)).Nodup := by
  have same : graph.taps.map (fun tap => (tap.path, tap.pin)) =
      design.tapSlots.map fun slot => (slot.path, slot.pin.name) := by
    rw [← List.forall₂_eq_eq_eq, List.forall₂_map_left_iff, List.forall₂_map_right_iff]
    exact made.flat.taps.flip.imp fun _ _ both => Prod.ext both.1 both.2.1
  rw [same]
  exact made.of.tapsNamed named

theorem pathsDistinct (named : circuit.Named) : (graph.nodes.map (·.path)).Nodup := by
  have paths : graph.nodes.map (·.path) = (design.leaves.map (·.place)).map design.path := by
    refine List.ext_getElem? fun i => ?_
    rw [List.map_map, List.getElem?_map, List.getElem?_map]
    cases here : design.leaves[i]? with
    | none =>
      have outside : graph.nodes[i]? = none := by
        rw [List.getElem?_eq_none_iff, ← made.flat.nodes.length_eq]
        exact List.getElem?_eq_none_iff.mp here
      rw [outside, Option.map_none, Option.map_none]
    | some leaf =>
      obtain ⟨node, found, stands⟩ := Result.forallAt made.flat.nodes here
      obtain ⟨path, -⟩ := leavesEntry leaf (List.mem_of_getElem? here)
      rw [found, Option.map_some, Option.map_some, Function.comp_apply, stands.path, path]
  have placed : ∀ place ∈ design.leaves.map (·.place), design.Present place := by
    intro place mem
    obtain ⟨leaf, member, rfl⟩ := List.mem_map.mp mem
    obtain ⟨-, name, item⟩ := leavesEntry leaf member
    exact .inr ⟨_, item⟩
  rw [paths]
  exact Hierarchy.leavesDistinct.map_on fun place mem place' mem' same =>
    made.of.pathInj named (placed place mem) (placed place' mem') same

end Design.Made

def Graph.wordsAt (graph : Graph) (state : Bytes) (path : List String) (k : Nat) : Nat :=
  ((graph.nodes.find? (·.path = path)).map fun node => node.words state k).getD 0

theorem Graph.wordsOwn {graph : Graph} (distinct : (graph.nodes.map (·.path)).Nodup) {node : Node}
    (mem : node ∈ graph.nodes) (state : Bytes) : graph.wordsAt state node.path = node.words state := by
  obtain ⟨other, found⟩ : ∃ other, graph.nodes.find? (·.path = node.path) = some other := by
    refine Option.ne_none_iff_exists'.mp fun missing => ?_
    simpa using List.find?_eq_none.mp missing node mem
  have path : other.path = node.path := by simpa using List.find?_some found
  obtain rfl := List.inj_on_of_nodup_map distinct (List.mem_of_find?_eq_some found) mem path
  funext k
  rw [wordsAt, found, Option.map_some, Option.getD_some]

structure Snapshot.Tells (snapshot : Snapshot) (graph : Graph) (pins : List String × String → Nat) : Prop where
  outputs : ∀ output ∈ graph.outputs, snapshot.value graph output.2 = pins ([], output.1.name)
  taps : ∀ tap ∈ graph.taps, snapshot.value graph tap.source = pins (tap.path, tap.pin)
  operands : ∀ node ∈ graph.nodes, ∀ k < node.primitive.inputs.length,
    node.operand snapshot.given (graph.evaluate snapshot.given (Node.words snapshot.state)) k =
      node.primitive.taken pins node.path k

theorem Design.Made.labelsTell {circuit : Circuit} {library : Library} {root : Nat} {design : Design} {graph : Graph}
    (made : design.Made circuit library root graph) (wellFormed : graph.WellFormed) (named : circuit.Named)
    {snapshot : Snapshot} {staged : String → Nat} (given : snapshot.given = graph.inputPins staged)
    {pins : List String × String → Nat}
    (labelled : circuit.Labelled root (circuit.BuiltAt library root) staged (graph.wordsAt snapshot.state) pins) :
    snapshot.Tells graph pins := by
  have labels := Design.Flat.labelsSettled made.of made.flat (made.covers named) labelled
  have settled : graph.Settled (graph.inputPins staged) (Node.words snapshot.state) (graph.nodePins pins) := by
    intro i node here
    have words := Graph.wordsOwn (made.pathsDistinct named) (List.mem_of_getElem? here) snapshot.state
    exact words ▸ labels i node here
  have evaluated := Graph.evaluateSettled wellFormed (graph.inputPins staged) (Node.words snapshot.state)
  have told : ∀ {pin n}, circuit.Shows root graph snapshot.given
      (graph.evaluate snapshot.given (Node.words snapshot.state)) pin n → n = pins pin := by
    intro pin n shown
    rw [given] at shown
    exact (Design.Flat.shownLabels made.of made.flat labelled
      (shown.congr (Graph.settledUnique wellFormed evaluated settled))).symm
  exact ⟨fun output mem => told (Design.Flat.outputShows made.of made.flat mem),
    fun tap mem => told (Design.Flat.tapShows made.of made.flat tap mem),
    fun node mem k inside => told (Design.Flat.operandShows made.of made.flat mem inside)⟩

theorem Graph.tapOwn {graph : Graph} (distinct : (graph.taps.map fun tap => tapName tap.path tap.pin).Nodup) {k : Nat}
    {tap : Tap} (here : graph.taps[k]? = some tap) : graph.tap? tap.path tap.pin = some k := by
  obtain ⟨inside, own⟩ := List.getElem?_eq_some_iff.mp here
  refine List.findIdx?_eq_some_iff_getElem.mpr ⟨inside, by rw [own, decide_eq_true rfl], fun j before => ?_⟩
  have inside' := Nat.lt_trans before inside
  intro same
  have names := of_decide_eq_true same
  exact Nat.ne_of_lt before (Result.indexInj distinct (List.getElem?_eq_getElem inside') here names)

namespace Simulator

def staged (sim : Simulator) (name : String) : Nat := (sim.inputs.get (.name name)).toOption.getD 0

theorem Serves.stagedNumbers {sim : Simulator} {graph : Graph} (serves : sim.Serves graph)
    (distinct : (graph.inputs.map (·.name)).Nodup) :
    (fun k => sim.inputs.numbers.getD k 0) = graph.inputPins sim.staged := by
  have named : (sim.inputs.layout.members.map (·.name)).Nodup := by
    rw [← serves.inputPorts, List.map_map] at distinct
    exact distinct
  refine serves.numbersStaged fun member mem => ?_
  obtain ⟨other, mem', same, read⟩ := Record.getNamed mem
  obtain rfl := List.inj_on_of_nodup_map named mem' mem same
  rw [staged, read]
  rfl

section Look

variable {circuit : Circuit} {library : Library} {top : Nat} {design : Design} {graph : Graph}
  (made : design.Made circuit library top graph) (wellFormed : graph.WellFormed) (named : circuit.Named)
  {sim : Simulator} {snapshot : Snapshot} (stands : sim.Stands graph snapshot)
include made wellFormed named stands

omit wellFormed in
theorem givenPins : snapshot.given = graph.inputPins sim.staged := by
  rw [← stands.serves.stagedNumbers (made.flat.inputsNamed made.of named), stands.staged]
  rfl

theorem sourceLabel {pins : List String × String → Nat}
    (labelled : circuit.Labelled top (circuit.BuiltAt library top) sim.staged (graph.wordsAt sim.state) pins) :
    ∀ tap ∈ graph.taps, snapshot.value graph tap.source = pins (tap.path, tap.pin) := by
  rw [stands.state] at labelled
  exact (made.labelsTell wellFormed named (givenPins made named stands) labelled).taps

omit made named in
theorem sourceFits (shown : graph.TapsFit) :
    ∀ tap ∈ graph.taps, snapshot.value graph tap.source < 2 ^ tap.width := by
  intro tap mem
  have fits := Graph.sourceLt wellFormed (fun node _ => node.wordsLt sim.state) (standsSettled stands wellFormed)
    (Graph.argsAdmit (stands.serves.numbersFit stands.inputs)) (shown tap mem)
  rw [stands.staged] at fits
  exact fits

end Look

/-- A look at a tap gives the number at its pin. The taps are the inputs of all instances. After every run there are
numbers at the pins that agree with the nets, with what the primitives make of the words of state, and with what is
staged; a tap shows theirs, at its full width. Nothing but the bytes of the tap record changes by it, and no later
answer. -/
theorem tapShowsPin (platform : Platform) (circuit : Circuit) (library : Library) (sound : library.Sound)
    (settings : Settings) (top : Nat) (set : settings.taps = true) (sim : Simulator)
    (built : ofCircuit platform circuit library settings top = .ok sim) (small : sim.Small) (requests : List Request) :
    (∀ path pin width, (∃ tap ∈ sim.tapRecords, tap.path = path ∧ tap.pin = pin ∧ tap.width = width) ↔
      circuit.InputAt library top (path, pin) width) ∧
    ∃ graph, circuit.flatten library top = .ok graph ∧
      let now := sim.asked requests
      let words := graph.wordsAt now.state
      (∃ pins, circuit.Labelled top (circuit.BuiltAt library top) now.staged words pins) ∧
      ∀ pins, circuit.Labelled top (circuit.BuiltAt library top) now.staged words pins →
        ∀ tap ∈ sim.tapRecords, pins (tap.path, tap.pin) < 2 ^ tap.width ∧
          ∃ data, now.getValue tap.path tap.pin = .ok (pins (tap.path, tap.pin), now.refilled data) ∧
            ∀ later, (now.refilled data).answers later = now.answers later := by
  obtain ⟨graph, fresh⟩ := ofCircuitFresh built small.inputs small.outputs
  obtain ⟨design, made⟩ := Circuit.flattenMade fresh.flat
  have wellFormed := made.flat.soundWellFormed sound made.of
  have named := Circuit.validateNamed fresh.checked
  have shown := made.flat.tapsFit made.of
  obtain ⟨recordable, records⟩ := recordsTaps fresh set
  refine ⟨fun path pin width => ?_, graph, fresh.flat, ?_, fun pins labelled record mem => ?_⟩
  · rw [← made.tapIff named]
    have same := congrArg ((path, pin, width) ∈ ·) records
    simpa only [List.mem_map, Prod.mk.injEq, eq_iff_iff] using same
  · exact Design.Flat.labelsExist (made.covers named) made.of made.flat wellFormed named _ _
  · have listed : (record.path, record.pin, record.width) ∈
        graph.taps.map fun tap => (tap.path, tap.pin, tap.width) := records ▸ List.mem_map.mpr ⟨record, mem, rfl⟩
    obtain ⟨tap, own, same⟩ := List.mem_map.mp listed
    obtain ⟨path, rest⟩ := Prod.mk.inj same
    obtain ⟨pin, width⟩ := Prod.mk.inj rest
    obtain ⟨k, here⟩ := List.mem_iff_getElem?.mp own
    -- taps whose names clash are refused, so the name of a tap finds the tap itself
    have found := Graph.tapOwn recordable.distinct here
    have on : (graph.start settings.taps).captured.isSome = true := by
      rw [Graph.start, set]
      rfl
    obtain ⟨captured, held⟩ := Option.isSome_iff_exists.mp ((graph.respondedHeld requests).trans on)
    obtain ⟨-, stands⟩ := runStands (freshStands fresh (fun _ => tapsCount wellFormed shown) small) wellFormed shown requests
    obtain ⟨data, read, after⟩ := lookShows stands wellFormed shown held found here
    rw [← path, ← pin, ← width, ← sourceLabel made wellFormed named stands labelled tap own]
    refine ⟨sourceFits wellFormed stands shown tap own, data, read, fun later => ?_⟩
    obtain ⟨answers, -⟩ := runStands stands wellFormed shown later
    obtain ⟨answers', -⟩ := runStands after wellFormed shown later
    rw [answers, answers']
    refine graph.responsesAlike ?_ later
    exact ⟨rfl, rfl, (congrArg Option.isSome held).symm, rfl⟩

theorem countersTapped : ∃ sim, ofCircuit default counters .builtin { taps := true, layout := .bitPacked } 1 = .ok sim ∧
    ∃ later, (sim.asked [.call (.set "step" 3), .call .update]).getValue ["second", "add"] "lhs" = .ok (3, later) := by
  let requests : List Request := [.call (.set "step" 3), .call .update]
  let record (tap : TapRecord) : Bool := decide (tap.path = ["second", "add"] ∧ tap.pin = "lhs")
  have evaluated : (ofCircuit default counters .builtin { taps := true, layout := .bitPacked } 1).toOption.any (fun sim =>
      decide sim.Small && (sim.tapRecords.any record &&
        decide (((sim.asked requests).getValue ["second", "add"] "lhs").toOption.map (·.1) = some 3))) = true := by
    decide +kernel
  obtain ⟨sim, built, checked⟩ := Result.okAny evaluated
  obtain ⟨small, checked⟩ := Bool.and_eq_true_iff.mp checked
  obtain ⟨recorded, read⟩ := Bool.and_eq_true_iff.mp checked
  obtain ⟨tap, mem, same⟩ := List.any_eq_true.mp recorded
  obtain ⟨path, pin⟩ := of_decide_eq_true same
  obtain ⟨-, graph, -, ⟨pins, labelled⟩, told⟩ := tapShowsPin default counters .builtin Library.builtinSound _ 1 rfl sim built
    (of_decide_eq_true small) requests
  obtain ⟨-, data, looked, -⟩ := told pins labelled tap mem
  rw [path, pin] at looked
  have value := of_decide_eq_true read
  rw [looked] at value
  have three : pins (["second", "add"], "lhs") = 3 := Option.some.inj value
  exact ⟨sim, built, _, three ▸ looked⟩

end Simulator

end CircuitSim
