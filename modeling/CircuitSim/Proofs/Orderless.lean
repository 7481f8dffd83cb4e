import CircuitSim.Proofs.Reordering
import CircuitSim.Proofs.Symbols

/-! The order in which a circuit is written down shows in nothing that a simulator says. Two builds number their nodes,
place their state and lay out their taps each in its own way; what relates them is that every instance path has the
same words of state in both. Main statement: `orderUnseen`. -/
namespace CircuitSim

def Tap.site (tap : Tap) : List String × String × Nat := (tap.path, tap.pin, tap.width)

def Graph.tapNames (graph : Graph) : List String := graph.taps.map fun tap => tapName tap.path tap.pin

structure Graph.Alike (graph graph' : Graph) : Prop where
  inputs : graph.inputs = graph'.inputs
  outputs : graph.outputs.map (·.1) = graph'.outputs.map (·.1)
  nodes : ∀ node ∈ graph.nodes, ∃ node' ∈ graph'.nodes, node'.path = node.path ∧ node'.primitive = node.primitive
  taps : (graph.taps.map (·.site)).Perm (graph'.taps.map (·.site))

namespace Graph.Alike

variable {graph graph' : Graph} (alike : graph.Alike graph')
include alike

theorem tapNames : graph.tapNames.Perm graph'.tapNames := by
  have names : ∀ graph : Graph, graph.tapNames = (graph.taps.map (·.site)).map fun site => tapName site.1 site.2.1 := by
    intro graph
    rw [Graph.tapNames, List.map_map]
    rfl
  rw [names, names]
  exact alike.taps.map _

theorem recordable (recordable : graph.Recordable) : graph'.Recordable := by
  refine ⟨alike.tapNames.nodup_iff.mp recordable.distinct, fun tap' mem => ?_⟩
  obtain ⟨tap, listed, same⟩ := List.mem_map.mp (alike.taps.symm.subset (List.mem_map_of_mem mem))
  have width : tap.width = tap'.width := (Prod.mk.inj (Prod.mk.inj same).2).2
  exact width ▸ recordable.sized tap listed

theorem tapFound (distinct : graph.tapNames.Nodup) (path : List String) (pin : String) :
    (graph.tap? path pin = none ∧ graph'.tap? path pin = none) ∨
      ∃ k k', ∃ tap ∈ graph.taps, ∃ tap' ∈ graph'.taps, graph.tap? path pin = some k ∧ graph.taps.getD k default = tap ∧
        graph'.tap? path pin = some k' ∧ graph'.taps.getD k' default = tap' ∧ tap.path = tap'.path ∧
          tap.pin = tap'.pin := by
  have found : ∀ {graph : Graph} {k : Nat}, graph.tap? path pin = some k → ∃ tap ∈ graph.taps,
      graph.taps.getD k default = tap ∧ tapName tap.path tap.pin = tapName path pin := by
    intro graph k found
    obtain ⟨inside, own, -⟩ := List.findIdx?_eq_some_iff_getElem.mp found
    refine ⟨_, List.getElem_mem inside, ?_, of_decide_eq_true own⟩
    rw [List.getD_eq_getElem?_getD, List.getElem?_eq_getElem inside, Option.getD_some]
  have missed : ∀ {graph : Graph}, graph.tap? path pin = none ↔ tapName path pin ∉ graph.tapNames := by
    intro graph
    rw [Graph.tap?, List.findIdx?_eq_none_iff, Graph.tapNames, List.mem_map]
    simp
  cases first : graph.tap? path pin with
  | none => exact .inl ⟨rfl, missed.mpr fun mem => missed.mp first (alike.tapNames.symm.subset mem)⟩
  | some k =>
    obtain ⟨tap, mem, here, name⟩ := found first
    cases second : graph'.tap? path pin with
    | none => exact absurd (alike.tapNames.subset (List.mem_map.mpr ⟨tap, mem, name⟩)) (missed.mp second)
    | some k' =>
      obtain ⟨tap', mem', here', name'⟩ := found second
      obtain ⟨other, listed, same⟩ := List.mem_map.mp (alike.taps.symm.subset (List.mem_map_of_mem mem'))
      obtain ⟨path', rest⟩ := Prod.mk.inj same
      obtain ⟨pin', -⟩ := Prod.mk.inj rest
      have names : tapName other.path other.pin = tapName tap.path tap.pin := by rw [path', pin', name', name]
      obtain rfl := List.inj_on_of_nodup_map distinct listed mem names
      exact .inr ⟨k, k', other, mem, tap', mem', rfl, here, rfl, here', path', pin'⟩

end Graph.Alike

structure Snapshot.Mirrors (snapshot snapshot' : Snapshot) (graph graph' : Graph) : Prop where
  staged : snapshot.staged = snapshot'.staged
  shown : snapshot.shown = snapshot'.shown
  captured : snapshot.captured.isSome = snapshot'.captured.isSome
  words : ∀ node ∈ graph.nodes, ∀ node' ∈ graph'.nodes, node'.path = node.path → ∀ k < node.primitive.cells,
    node.words snapshot.state k = node'.words snapshot'.state k

namespace Snapshot.Mirrors

variable {snapshot snapshot' : Snapshot} {graph graph' : Graph} (mirrors : snapshot.Mirrors snapshot' graph graph')
  (alike : graph.Alike graph')
include mirrors alike

theorem stage (name : String) (value : Nat) :
    (graph.stage snapshot name value).1 = (graph'.stage snapshot' name value).1 ∧
      (graph.stage snapshot name value).2.Mirrors (graph'.stage snapshot' name value).2 graph graph' := by
  have checked : graph.check name (Width.bitLength value) = graph'.check name (Width.bitLength value) := by
    rw [Graph.check, Graph.check, alike.inputs]
  rw [Graph.stage, Graph.stage, checked]
  cases graph'.check name (Width.bitLength value) with
  | error fault => exact ⟨rfl, mirrors⟩
  | ok k => exact ⟨rfl, { mirrors with staged := congrArg (·.set k value) mirrors.staged }⟩

variable {pins : List String × String → Nat} (tells : snapshot.Tells graph pins) (tells' : snapshot'.Tells graph' pins)
include tells tells'

theorem compute : (graph.respond snapshot (.call .compute)).2.Mirrors (graph'.respond snapshot' (.call .compute)).2
    graph graph' := by
  have shown : ∀ {graph : Graph} {snapshot : Snapshot}, snapshot.Tells graph pins →
      graph.outputs.map (fun output => snapshot.value graph output.2) =
        (graph.outputs.map (·.1)).map fun port => pins ([], port.name) := by
    intro graph snapshot tells
    rw [List.map_map]
    exact List.map_congr_left tells.outputs
  refine { mirrors with shown := ?_ }
  rw [Graph.respond, Graph.respond, shown tells, shown tells', alike.outputs]

theorem look (distinct : snapshot.captured.isSome = true → graph.tapNames.Nodup) (path : List String) (pin : String) :
    (graph.look snapshot path pin).1 = (graph'.look snapshot' path pin).1 ∧
      (graph.look snapshot path pin).2.Mirrors (graph'.look snapshot' path pin).2 graph graph' := by
  have both := mirrors.captured
  unfold Graph.look
  cases held : snapshot.captured with
  | none =>
    rw [held] at both
    have absent : snapshot'.captured = none := Option.isNone_iff_eq_none.mp (Option.isSome_eq_false_iff.mp both.symm)
    rw [absent]
    exact ⟨rfl, mirrors⟩
  | some captured =>
    rw [held] at both distinct
    obtain ⟨captured', held'⟩ := Option.isSome_iff_exists.mp both.symm
    rw [held']
    rcases alike.tapFound (distinct rfl) path pin with
      ⟨missed, missed'⟩ | ⟨k, k', tap, mem, tap', mem', first, here, second, here', path', pin'⟩
    · simp only [missed, missed']
      exact ⟨trivial, mirrors⟩
    · simp only [first, second, here, here', tells.taps tap mem, tells'.taps tap' mem', path', pin']
      exact ⟨trivial, { mirrors with captured := rfl }⟩

end Snapshot.Mirrors

theorem Simulator.updateNext {sim : Simulator} {graph : Graph} {snapshot : Snapshot} (stands : sim.Stands graph snapshot)
    (wellFormed : graph.WellFormed) {node : Node} (mem : node ∈ graph.nodes) {k : Nat}
    (known : k < node.primitive.cells) : node.words (graph.respond snapshot (.call .update)).2.state k =
      node.primitive.next (node.operand snapshot.given (graph.evaluate snapshot.given (Node.words snapshot.state)))
        (node.words snapshot.state) k := by
  have settled := Graph.evaluateSettled wellFormed snapshot.given (Node.words snapshot.state)
  have admits := Graph.argsAdmit (stands.serves.numbersFit stands.inputs)
  rw [stands.staged] at admits
  have sized : graph.stateBytes < snapshot.state.size := by rw [← stands.state, stands.room]; omega
  have fits := Graph.settledFits wellFormed (fun node _ => node.wordsLt snapshot.state) settled admits mem
    node.primitive.pins
  exact (wellFormed.stored settled admits sized mem).next fits known

theorem Circuit.Labelled.reword {circuit : Circuit} {root : Nat} {primitiveAt : List String → Primitive → Prop}
    {staged : String → Nat} {words words' : List String → Nat → Nat} {pins : List String × String → Nat}
    (labelled : circuit.Labelled root primitiveAt staged words pins)
    (valid : ∀ path primitive, primitiveAt path primitive → primitive.Valid)
    (same : ∀ path primitive, primitiveAt path primitive → ∀ k < primitive.cells, words path k = words' path k) :
    circuit.Labelled root primitiveAt staged words' pins := by
  refine { labelled with primitives := fun path primitive here => ?_ }
  rw [labelled.primitives path primitive here]
  exact Primitive.resultWords (valid path primitive here) (same path primitive here)

structure Graph.Twinned (circuit circuit' : Circuit) (paired : Nat → Nat → Prop) (library : Library) (top top' : Nat)
    (design design' : Design) (graph graph' : Graph) : Prop where
  alike : circuit.Alike circuit' paired
  tops : paired top top'
  named : circuit.Named
  named' : circuit'.Named
  made : design.Made circuit library top graph
  made' : design'.Made circuit' library top' graph'

namespace Graph.Twinned

variable {circuit circuit' : Circuit} {paired : Nat → Nat → Prop} {library : Library} {top top' : Nat}
  {design design' : Design} {graph graph' : Graph}
  (twinned : Twinned circuit circuit' paired library top top' design design' graph graph')
include twinned

theorem nodeAlike : ∀ node ∈ graph.nodes, ∃ node' ∈ graph'.nodes,
    node'.path = node.path ∧ node'.primitive = node.primitive := by
  intro node mem
  have built := twinned.alike.builtAt twinned.tops ((twinned.made.covers twinned.named).nodes node mem)
  obtain ⟨i, node', here, path, primitive⟩ := (twinned.made'.covers twinned.named').only _ _ built
  exact ⟨node', List.mem_of_getElem? here, path, primitive⟩

theorem tapsAlike : (graph.taps.map (·.site)).Perm (graph'.taps.map (·.site)) := by
  have distinct : ∀ {taps : List Tap}, (taps.map fun tap => (tap.path, tap.pin)).Nodup → (taps.map (·.site)).Nodup := by
    intro taps distinct
    refine List.Nodup.of_map (fun site : List String × String × Nat => (site.1, site.2.1)) ?_
    rw [List.map_map]
    exact distinct
  refine (List.perm_ext_iff_of_nodup (distinct (twinned.made.tapsDistinct twinned.named))
    (distinct (twinned.made'.tapsDistinct twinned.named'))).mpr fun site => ?_
  obtain ⟨path, pin, width⟩ := site
  have listed : ∀ taps : List Tap, (path, pin, width) ∈ taps.map (·.site) ↔
      ∃ tap ∈ taps, tap.path = path ∧ tap.pin = pin ∧ tap.width = width := by
    intro taps
    simp [Tap.site]
  rw [listed, listed, twinned.made.tapIff twinned.named, twinned.made'.tapIff twinned.named']
  exact ⟨twinned.alike.inputAt twinned.tops, twinned.alike.symm.inputAt twinned.tops⟩

theorem graphs : graph.Alike graph' := by
  have shuffled := twinned.alike.shuffled twinned.tops
  refine ⟨?_, ?_, twinned.nodeAlike, twinned.tapsAlike⟩
  · rw [twinned.made.flat.inputs, twinned.made'.flat.inputs, twinned.made.of.interface, twinned.made'.of.interface,
      shuffled.interface]
  · rw [twinned.made.flat.outputPorts, twinned.made'.flat.outputPorts, twinned.made.of.interface,
      twinned.made'.of.interface, shuffled.interface]

variable (sound : library.Sound)
include sound

theorem wellFormed : graph.WellFormed ∧ graph'.WellFormed :=
  ⟨twinned.made.flat.soundWellFormed sound twinned.made.of, twinned.made'.flat.soundWellFormed sound twinned.made'.of⟩

theorem tell {snapshot snapshot' : Snapshot} (mirrors : snapshot.Mirrors snapshot' graph graph') {staged : String → Nat}
    (given : snapshot.given = graph.inputPins staged) : ∃ pins, snapshot.Tells graph pins ∧ snapshot'.Tells graph' pins := by
  obtain ⟨wellFormed, wellFormed'⟩ := twinned.wellFormed sound
  have covers := twinned.made.covers twinned.named
  obtain ⟨pins, labelled⟩ := Design.Flat.labelsExist covers twinned.made.of twinned.made.flat wellFormed twinned.named
    staged (graph.wordsAt snapshot.state)
  have given' : snapshot'.given = graph'.inputPins staged := by
    have same : snapshot'.given = snapshot.given := by
      funext k
      rw [Snapshot.given, Snapshot.given, mirrors.staged]
    have pins : graph'.inputPins staged = graph.inputPins staged := by
      funext k
      rw [inputPins, inputPins, twinned.graphs.inputs]
    rw [same, pins, given]
  have reworded : circuit.Labelled top (circuit.BuiltAt library top) staged (graph'.wordsAt snapshot'.state) pins := by
    refine labelled.reword (fun path primitive built => ?_) fun path primitive built k known => ?_
    · obtain ⟨_, _, _, built⟩ := built
      exact sound _ _ _ _ built
    · obtain ⟨i, node, here, rfl, rfl⟩ := covers.only path primitive built
      have mem := List.mem_of_getElem? here
      obtain ⟨node', mem', path, -⟩ := twinned.nodeAlike node mem
      rw [wordsOwn (twinned.made.pathsDistinct twinned.named) mem, ← path,
        wordsOwn (twinned.made'.pathsDistinct twinned.named') mem']
      exact mirrors.words node mem node' mem' path k known
  exact ⟨pins, twinned.made.labelsTell wellFormed twinned.named given labelled,
    twinned.made'.labelsTell wellFormed' twinned.named' given' (twinned.alike.labelled twinned.tops reworded)⟩

section Run

variable {sim sim' : Simulator} {snapshot snapshot' : Snapshot} (stands : sim.Stands graph snapshot)
  (stands' : sim'.Stands graph' snapshot') (mirrors : snapshot.Mirrors snapshot' graph graph')
  (distinct : snapshot.captured.isSome = true → graph.tapNames.Nodup)
include stands stands' mirrors distinct

omit distinct in
theorem updateMirrors : (graph.respond snapshot (.call .update)).2.Mirrors
    (graph'.respond snapshot' (.call .update)).2 graph graph' := by
  obtain ⟨wellFormed, wellFormed'⟩ := twinned.wellFormed sound
  obtain ⟨pins, tells, tells'⟩ := twinned.tell sound mirrors (Simulator.givenPins twinned.made twinned.named stands)
  refine { mirrors with words := fun node mem node' mem' path k known => ?_ }
  obtain ⟨other, listed, path', primitive⟩ := twinned.nodeAlike node mem
  obtain rfl : other = node' :=
    List.inj_on_of_nodup_map (twinned.made'.pathsDistinct twinned.named') listed mem' (path'.trans path.symm)
  have known' : k < other.primitive.cells := primitive ▸ known
  rw [Simulator.updateNext stands wellFormed mem known, Simulator.updateNext stands' wellFormed' mem' known', primitive]
  refine Primitive.nextCongr (fun j inside => ?_) (mirrors.words node mem other mem' path k known)
  have inside' : j < other.primitive.inputs.length := primitive ▸ inside
  rw [tells.operands node mem j inside, tells'.operands other mem' j inside', primitive, path]

theorem respondMirrors (request : Request) : (graph.respond snapshot request).1 = (graph'.respond snapshot' request).1 ∧
    (graph.respond snapshot request).2.Mirrors (graph'.respond snapshot' request).2 graph graph' := by
  obtain ⟨pins, tells, tells'⟩ := twinned.tell sound mirrors (Simulator.givenPins twinned.made twinned.named stands)
  cases request with
  | get path pin => exact mirrors.look twinned.graphs tells tells' distinct path pin
  | call call =>
    cases call with
    | set name value => exact mirrors.stage twinned.graphs name value
    | setWord name value => exact mirrors.stage twinned.graphs name value.toNat
    | compute => exact ⟨rfl, mirrors.compute twinned.graphs tells tells'⟩
    | update => exact ⟨rfl, twinned.updateMirrors sound stands stands' mirrors⟩

theorem runMirrors (requests : List Request) :
    graph.responses snapshot requests = graph'.responses snapshot' requests ∧
      (graph.responded snapshot requests).Mirrors (graph'.responded snapshot' requests) graph graph' := by
  obtain ⟨wellFormed, wellFormed'⟩ := twinned.wellFormed sound
  induction requests generalizing sim sim' snapshot snapshot' with
  | nil => exact ⟨rfl, mirrors⟩
  | cons request rest ih =>
    obtain ⟨answer, mirrors'⟩ := twinned.respondMirrors sound stands stands' mirrors distinct request
    have next := (Simulator.askStands stands wellFormed (twinned.made.flat.tapsFit twinned.made.of) request).2
    have next' := (Simulator.askStands stands' wellFormed' (twinned.made'.flat.tapsFit twinned.made'.of) request).2
    have held : (graph.respond snapshot request).2.captured.isSome = true → graph.tapNames.Nodup :=
      fun held => distinct ((graph.respondHeld request).symm.trans held)
    obtain ⟨answers, mirrors''⟩ := ih next next' mirrors' held
    exact ⟨congrArg₂ List.cons answer answers, mirrors''⟩

end Run

end Graph.Twinned

namespace Circuit

theorem Reordered.distinct {circuit circuit' : Circuit} (reordered : circuit.Reordered circuit')
    (distinct : circuit'.Distinct) : circuit.Distinct := by
  obtain ⟨definitions, added, each, perm⟩ := reordered
  have names : circuit.definitions.map (·.name) = definitions.map (·.name) := by
    rw [← List.forall₂_eq_eq_eq, List.forall₂_map_left_iff, List.forall₂_map_right_iff]
    exact each.imp fun _ _ shuffled => shuffled.name
  have all := (perm.map fun definition : Definition => definition.name).nodup_iff.mpr distinct
  rw [List.map_append] at all
  rw [Distinct, names]
  exact all.of_append_left

section Twins

variable {circuit circuit' : Circuit} {paired : Nat → Nat → Prop} (alike : circuit.Alike circuit' paired)
  {top top' : Nat} (tops : paired top top') (checked : circuit.validate = .ok ()) (checked' : circuit'.validate = .ok ())
  {library : Library}
include alike tops

theorem Alike.unwrapped (unwrapped : circuit.Unwrapped top) : circuit'.Unwrapped top' := by
  intro id' needs'
  obtain ⟨id, needs, pair⟩ := alike.symm.needs tops needs'
  rw [← (alike.shuffled pair).name, ← (alike.shuffled tops).name]
  exact unwrapped id needs

include checked checked'

theorem Alike.twinned {graph graph' : Graph} (flat : circuit.flatten library top = .ok graph)
    (flat' : circuit'.flatten library top' = .ok graph') : ∃ design design',
      Graph.Twinned circuit circuit' paired library top top' design design' graph graph' := by
  obtain ⟨design, made⟩ := flattenMade flat
  obtain ⟨design', made'⟩ := flattenMade flat'
  exact ⟨design, design', alike, tops, validateNamed checked, validateNamed checked', made, made'⟩

theorem Alike.builds {platform : Platform} (accepts : platform.backend.Accepts library) (distinct : circuit.Distinct) (distinct' : circuit'.Distinct) {settings : Settings}
    (built : ∃ sim, Simulator.ofCircuit platform circuit library settings top = .ok sim) :
    ∃ sim, Simulator.ofCircuit platform circuit' library settings top' = .ok sim := by
  obtain ⟨flat, unwrapped, recordable⟩ := (Simulator.ofCircuitIff accepts distinct checked).mp built
  refine (Simulator.ofCircuitIff accepts distinct' checked').mpr ⟨fun id' needs' => ?_, alike.unwrapped tops unwrapped,
    fun set graph' flat' => ?_⟩
  · obtain ⟨id, needs, pair⟩ := alike.symm.needs tops needs'
    obtain ⟨graph, made⟩ := flat id needs
    exact flattens checked checked' alike pair made
  · obtain ⟨graph, made⟩ := flat top .refl
    obtain ⟨design, design', twinned⟩ := alike.twinned tops checked checked' made flat'
    exact twinned.graphs.recordable (recordable set graph made)

end Twins

end Circuit

theorem Graph.Alike.start {graph graph' : Graph} (alike : graph.Alike graph') (taps : Bool) :
    (graph.start taps).Mirrors (graph'.start taps) graph graph' := by
  have ports : ∀ graph : Graph, graph.outputs.map (fun _ => 0) = (graph.outputs.map (·.1)).map fun _ => 0 := by
    intro graph
    rw [List.map_map]
    rfl
  refine ⟨?_, ?_, ?_, fun node _ node' _ _ k _ => ?_⟩
  · rw [Graph.start, Graph.start, alike.inputs]
  · rw [Graph.start, Graph.start, ports, ports, alike.outputs]
  · rw [Graph.start, Graph.start]
    cases taps with
    | false | true => rfl
  · rw [Node.words, Node.words, Primitive.word, Primitive.word, Graph.start, Graph.start, Bytes.zerosField,
      Bytes.zerosField]

namespace Simulator

variable {circuit circuit' : Circuit} {library : Library} {settings : Settings} {top top' : Nat} {sim sim' : Simulator}
  {graph graph' : Graph}

section Fresh

variable (fresh : Fresh circuit library settings top sim graph)
include fresh

theorem recordsNamed (held : (graph.start settings.taps).captured.isSome = true) : graph.tapNames.Nodup := by
  have set : settings.taps = true := by
    by_contra unset
    rw [Graph.start, Bool.eq_false_of_not_eq_true unset] at held
    exact Bool.false_ne_true held
  exact (recordsTaps fresh set).1.distinct

theorem recordsNone (unset : settings.taps = false) : sim.tapRecords = [] := by
  have instrumented := fresh.taps
  unfold tapRecords
  generalize sim.taps = taps at instrumented
  cases instrumented with
  | off => rfl
  | on set => exact absurd (set.symm.trans unset) (by decide)

theorem recordsAlike (fresh' : Fresh circuit' library settings top' sim' graph') (alike : graph.Alike graph') :
    (sim.tapRecords.map fun tap => (tap.path, tap.pin, tap.width)).Perm
      (sim'.tapRecords.map fun tap => (tap.path, tap.pin, tap.width)) := by
  cases set : settings.taps with
  | true =>
    rw [(recordsTaps fresh set).2, (recordsTaps fresh' set).2]
    exact alike.taps
  | false => rw [recordsNone fresh set, recordsNone fresh' set]

end Fresh

theorem valuesAlike {snapshot snapshot' : Snapshot} (stands : sim.Stands graph snapshot)
    (stands' : sim'.Stands graph' snapshot') (alike : graph.Alike graph')
    (mirrors : snapshot.Mirrors snapshot' graph graph') :
    sim.inputs.values = sim'.inputs.values ∧ sim.outputs.values = sim'.outputs.values := by
  have visible := standsVisible stands
  have visible' := standsVisible stands'
  constructor
  · have inputs : sim.inputs.values = (graph.visible snapshot).inputs := congrArg Visible.inputs visible
    have inputs' : sim'.inputs.values = (graph'.visible snapshot').inputs := congrArg Visible.inputs visible'
    rw [inputs, inputs', Graph.visible, Graph.visible, alike.inputs, mirrors.staged]
  · have outputs : sim.outputs.values = (graph.visible snapshot).outputs := congrArg Visible.outputs visible
    have outputs' : sim'.outputs.values = (graph'.visible snapshot').outputs := congrArg Visible.outputs visible'
    have names : graph.outputs.map (·.1.name) = graph'.outputs.map (·.1.name) := by
      have same := congrArg (List.map fun port : Port => port.name) alike.outputs
      rw [List.map_map, List.map_map] at same
      exact same
    rw [outputs, outputs', Graph.visible, Graph.visible, names, mirrors.shown]

/-- The order of definitions, instances, nets and sinks is of no account, and neither are definitions that have been
added: the top does not need them, since its circuit was valid without them. A build succeeds for both circuits or for
neither. What is built has the same taps, and gives the same answers and has the same inputs and outputs after every
run. -/
theorem orderUnseen (platform : Platform) (circuit circuit' : Circuit) (reordered : circuit.Reordered circuit')
    (distinct : circuit'.Distinct) (checked : circuit.validate = .ok ()) (checked' : circuit'.validate = .ok ())
    (library : Library) (accepts : platform.backend.Accepts library) (settings : Settings) (name : String)
    (top top' : Nat) (found : circuit.lookup name = .ok top) (found' : circuit'.lookup name = .ok top') :
    ((∃ sim, ofCircuit platform circuit library settings top = .ok sim) ↔
      ∃ sim', ofCircuit platform circuit' library settings top' = .ok sim') ∧
    ∀ sim sim', ofCircuit platform circuit library settings top = .ok sim → ofCircuit platform circuit' library settings top' = .ok sim' →
      library.Sound → sim.Small → sim'.Small →
      (sim.tapRecords.map fun tap => (tap.path, tap.pin, tap.width)).Perm
        (sim'.tapRecords.map fun tap => (tap.path, tap.pin, tap.width)) ∧
      ∀ requests, sim.answers requests = sim'.answers requests ∧
        (sim.asked requests).inputs.values = (sim'.asked requests).inputs.values ∧
        (sim.asked requests).outputs.values = (sim'.asked requests).outputs.values := by
  have alike := Circuit.reorderedAlike reordered distinct checked
  have tops : circuit.Namesakes circuit' top top' := ⟨name, found, found'⟩
  have own := reordered.distinct distinct
  refine ⟨⟨alike.builds tops checked checked' accepts own distinct,
    alike.symm.builds tops checked' checked accepts distinct own⟩,
    fun sim sim' built built' sound small small' => ?_⟩
  obtain ⟨graph, fresh⟩ := ofCircuitFresh built small.inputs small.outputs
  obtain ⟨graph', fresh'⟩ := ofCircuitFresh built' small'.inputs small'.outputs
  obtain ⟨design, design', twinned⟩ := alike.twinned tops checked checked' fresh.flat fresh'.flat
  obtain ⟨wellFormed, wellFormed'⟩ := twinned.wellFormed sound
  have shown := twinned.made.flat.tapsFit twinned.made.of
  have shown' := twinned.made'.flat.tapsFit twinned.made'.of
  have stands := freshStands fresh (fun _ => tapsCount wellFormed shown) small
  have stands' := freshStands fresh' (fun _ => tapsCount wellFormed' shown') small'
  refine ⟨recordsAlike fresh fresh' twinned.graphs, fun requests => ?_⟩
  obtain ⟨answers, mirrors⟩ := twinned.runMirrors sound stands stands' (twinned.graphs.start settings.taps)
    (recordsNamed fresh) requests
  obtain ⟨told, later⟩ := runStands stands wellFormed shown requests
  obtain ⟨told', later'⟩ := runStands stands' wellFormed' shown' requests
  exact ⟨told.trans (answers.trans told'.symm), valuesAlike later later' twinned.graphs mirrors⟩

def upended : Circuit := ⟨[
  { name := "counters"
    inputs := [⟨"step", 4⟩]
    outputs := [⟨"total", 4⟩]
    instances := [⟨"second", .definition "counter"⟩, ⟨"first", .definition "counter"⟩]
    nets := [⟨.of "second" "count", [.own "total"]⟩, ⟨.of "first" "count", [.of "second" "step"]⟩,
      ⟨.own "step", [.of "first" "step"]⟩] },
  { name := "alone"
    inputs := [⟨"step", 4⟩]
    outputs := [⟨"count", 4⟩]
    instances := [⟨"only", .definition "counter"⟩]
    nets := [⟨.own "step", [.of "only" "step"]⟩, ⟨.of "only" "count", [.own "count"]⟩] },
  { name := "counter"
    inputs := [⟨"step", 4⟩]
    outputs := [⟨"count", 4⟩]
    instances := [⟨"held", .primitive "register" [("width", 4)]⟩, ⟨"add", .primitive "add" [("width", 4)]⟩]
    nets := [⟨.of "add" "sum", [.of "held" "in"]⟩, ⟨.of "held" "out", [.own "count", .of "add" "rhs"]⟩,
      ⟨.own "step", [.of "add" "lhs"]⟩] }], none⟩

theorem countersUpended : counters.Reordered upended := by
  have reversed : ∀ {definition definition' : Definition}, definition.name = definition'.name →
      definition.inputs = definition'.inputs → definition.outputs = definition'.outputs →
      definition.instances.reverse = definition'.instances →
      List.Forall₂ Net.Shuffled definition.nets definition'.nets.reverse → definition.Shuffled definition' :=
    fun name inputs outputs instances nets => ⟨name, inputs, outputs, instances ▸ (List.reverse_perm _).symm, _, nets,
      List.reverse_perm _⟩
  refine ⟨[upended.definition 2, upended.definition 0], [upended.definition 1], ?_, by decide +kernel⟩
  refine .cons (reversed rfl rfl rfl rfl ?_) (.cons (reversed rfl rfl rfl rfl ?_) .nil)
  · exact .cons ⟨rfl, .refl _⟩ (.cons ⟨rfl, .swap _ _ _⟩ (.cons ⟨rfl, .refl _⟩ .nil))
  · exact .cons ⟨rfl, .refl _⟩ (.cons ⟨rfl, .refl _⟩ (.cons ⟨rfl, .refl _⟩ .nil))

theorem countersUnordered : ∃ sim, ofCircuit default upended .builtin { taps := true, layout := .bitPacked } 0 = .ok sim ∧
    (sim.answers [.call (.set "step" 3), .call .update, .get ["second", "add"] "lhs", .call (.set "step" 16)]).map
      Except.toOption = [some none, some none, some (some 3), none] := by
  let requests : List Request :=
    [.call (.set "step" 3), .call .update, .get ["second", "add"] "lhs", .call (.set "step" 16)]
  have evaluated : (ofCircuit default counters .builtin { taps := true, layout := .bitPacked } 1).toOption.any (fun sim =>
      decide (sim.Small ∧ (sim.answers requests).map Except.toOption = [some none, some none, some (some 3), none])) =
        true := by
    decide +kernel
  have evaluated' : (ofCircuit default upended .builtin { taps := true, layout := .bitPacked } 0).toOption.any (fun sim =>
      decide sim.Small) = true := by
    decide +kernel
  obtain ⟨sim, built, checked⟩ := Result.okAny evaluated
  obtain ⟨sim', built', checked'⟩ := Result.okAny evaluated'
  obtain ⟨small, answered⟩ := of_decide_eq_true checked
  have distinct : upended.Distinct := @Circuit.addAllDistinct .empty _ upended.definitions List.nodup_nil rfl
  obtain ⟨-, unseen⟩ := orderUnseen default counters upended countersUpended distinct (by decide +kernel)
    (by decide +kernel) .builtin (fun _ _ _ _ _ => rfl) { taps := true, layout := .bitPacked } "counters" 1 0 rfl rfl
  obtain ⟨-, same⟩ := unseen sim sim' built built' Library.builtinSound small (of_decide_eq_true checked')
  obtain ⟨answers, -⟩ := same requests
  exact ⟨sim', built', by rw [← answers]; exact answered⟩

end Simulator

end CircuitSim
