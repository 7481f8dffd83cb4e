import CircuitSim.Proofs.Outcome
import CircuitSim.Proofs.Simulation

/-! What can be learnt from a simulator depends on its graph and on the numbers that it holds, not on how its records
are laid out: simulators that stand for one snapshot give one answer to every request. -/
namespace CircuitSim

inductive Request
  | call (call : Call)
  | get (path : List String) (pin : String)
  deriving DecidableEq, Repr

namespace Simulator

def ask (sim : Simulator) : Request → Except Fault (Option Nat) × Simulator
  | .call call => ((sim.attempt call).map fun _ => none, sim.call call)
  | .get path pin =>
    match sim.getValue path pin with
    | .ok (value, sim) => (.ok (some value), sim)
    | .error fault => (.error fault, sim)

def answers (sim : Simulator) : List Request → List (Except Fault (Option Nat))
  | [] => []
  | request :: rest => (sim.ask request).1 :: (sim.ask request).2.answers rest

def asked (sim : Simulator) (requests : List Request) : Simulator :=
  requests.foldl (fun sim request => (sim.ask request).2) sim

theorem askRefused {sim : Simulator} {request : Request} {fault : Fault} (refused : (sim.ask request).1 = .error fault) :
    (sim.ask request).2 = sim := by
  cases request with
  | get path pin =>
    rw [ask] at refused ⊢
    cases looked : sim.getValue path pin with
    | error => rfl
    | ok read =>
      rw [looked] at refused
      cases refused
  | call call =>
    rw [ask] at refused ⊢
    rw [Simulator.call]
    cases tried : sim.attempt call with
    | error => rfl
    | ok next =>
      rw [tried] at refused
      cases refused

end Simulator

/- The numbers in the records of a simulator, in the order of the members, and its state. -/
structure Snapshot where
  staged : List Nat
  shown : List Nat
  /-- What the taps showed when one was last looked at, if there are taps. -/
  captured : Option (List Nat)
  state : Bytes

namespace Snapshot

def given (snapshot : Snapshot) (k : Nat) : Nat := snapshot.staged.getD k 0

def value (snapshot : Snapshot) (graph : Graph) (source : Source) : Nat :=
  source.value snapshot.given (graph.evaluate snapshot.given (Node.words snapshot.state))

end Snapshot

namespace Graph

def check (graph : Graph) (name : String) (bits : Nat) : Except Fault Nat :=
  match graph.inputs.findIdx? (·.name = name) with
  | none => .error (.unknownInput name)
  | some k =>
    let width := (graph.inputs.getD k default).width
    if width < bits then .error (.valueWidth name width bits) else .ok k

def tap? (graph : Graph) (path : List String) (pin : String) : Option Nat :=
  graph.taps.findIdx? fun tap => tapName tap.path tap.pin = tapName path pin

def start (graph : Graph) (taps : Bool) : Snapshot where
  staged := graph.inputs.map fun _ => 0
  shown := graph.outputs.map fun _ => 0
  captured := if taps then some (graph.taps.map fun _ => 0) else none
  state := Bytes.zeros (graph.stateBytes + 16)

def stage (graph : Graph) (snapshot : Snapshot) (name : String) (value : Nat) :
    Except Fault (Option Nat) × Snapshot :=
  match graph.check name (Width.bitLength value) with
  | .error fault => (.error fault, snapshot)
  | .ok k => (.ok none, { snapshot with staged := snapshot.staged.set k value })

def look (graph : Graph) (snapshot : Snapshot) (path : List String) (pin : String) :
    Except Fault (Option Nat) × Snapshot :=
  match snapshot.captured with
  | none => (.error .tapsDisabled, snapshot)
  | some _ =>
    match graph.tap? path pin with
    | none => (.error (.unknownTap (".".intercalate path) pin), snapshot)
    | some k =>
      (.ok (some (snapshot.value graph (graph.taps.getD k default).source)),
        { snapshot with captured := some (graph.taps.map fun tap => snapshot.value graph tap.source) })

def respond (graph : Graph) (snapshot : Snapshot) : Request → Except Fault (Option Nat) × Snapshot
  | .call (.set name value) => graph.stage snapshot name value
  | .call (.setWord name value) => graph.stage snapshot name value.toNat
  | .call .compute =>
    (.ok none, { snapshot with shown := graph.outputs.map fun output => snapshot.value graph output.2 })
  | .call .update =>
    (.ok none, { snapshot with
      state := advance snapshot.given (graph.evaluate snapshot.given (Node.words snapshot.state)) snapshot.state
        graph.nodes })
  | .get path pin => graph.look snapshot path pin

def responses (graph : Graph) (snapshot : Snapshot) : List Request → List (Except Fault (Option Nat))
  | [] => []
  | request :: rest => (graph.respond snapshot request).1 :: graph.responses (graph.respond snapshot request).2 rest

def responded (graph : Graph) (snapshot : Snapshot) (requests : List Request) : Snapshot :=
  requests.foldl (fun snapshot request => (graph.respond snapshot request).2) snapshot

end Graph

structure Snapshot.Alike (snapshot snapshot' : Snapshot) : Prop where
  staged : snapshot.staged = snapshot'.staged
  shown : snapshot.shown = snapshot'.shown
  captured : snapshot.captured.isSome = snapshot'.captured.isSome
  state : snapshot.state = snapshot'.state

namespace Graph

variable (graph : Graph) {snapshot snapshot' : Snapshot}

theorem lookAlike (alike : snapshot.Alike snapshot') (path : List String) (pin : String) :
    (graph.look snapshot path pin).1 = (graph.look snapshot' path pin).1 ∧
      (graph.look snapshot path pin).2.Alike (graph.look snapshot' path pin).2 := by
  obtain ⟨staged, shown, captured, state⟩ := snapshot
  obtain ⟨staged', shown', captured', state'⟩ := snapshot'
  obtain ⟨rfl, rfl, both, rfl⟩ := alike
  unfold look
  cases captured with
  | none =>
    cases captured' with
    | none => exact ⟨rfl, rfl, rfl, rfl, rfl⟩
    | some => exact nomatch both
  | some =>
    cases captured' with
    | none => exact nomatch both
    | some =>
      cases graph.tap? path pin with
      | none | some => exact ⟨rfl, rfl, rfl, rfl, rfl⟩

theorem stageAlike (alike : snapshot.Alike snapshot') (name : String) (value : Nat) :
    (graph.stage snapshot name value).1 = (graph.stage snapshot' name value).1 ∧
      (graph.stage snapshot name value).2.Alike (graph.stage snapshot' name value).2 := by
  unfold stage
  cases graph.check name (Width.bitLength value) with
  | error fault => exact ⟨rfl, alike⟩
  | ok k => exact ⟨rfl, { alike with staged := congrArg (·.set k value) alike.staged }⟩

theorem respondAlike (alike : snapshot.Alike snapshot') (request : Request) :
    (graph.respond snapshot request).1 = (graph.respond snapshot' request).1 ∧
      (graph.respond snapshot request).2.Alike (graph.respond snapshot' request).2 := by
  have given : snapshot.given = snapshot'.given := by
    funext k
    rw [Snapshot.given, Snapshot.given, alike.staged]
  cases request with
  | get path pin => exact graph.lookAlike alike path pin
  | call call =>
    cases call with
    | set name value => exact graph.stageAlike alike name value
    | setWord name value => exact graph.stageAlike alike name value.toNat
    | compute =>
      refine ⟨rfl, { alike with shown := ?_ }⟩
      simp only [respond, Snapshot.value, given, alike.state]
    | update =>
      refine ⟨rfl, { alike with state := ?_ }⟩
      simp only [respond, given, alike.state]

theorem respondHeld (request : Request) :
    (graph.respond snapshot request).2.captured.isSome = snapshot.captured.isSome := by
  cases request with
  | get path pin =>
    rw [respond, look]
    cases held : snapshot.captured with
    | none => rw [held]
    | some =>
      cases graph.tap? path pin with
      | none => simp only [held]
      | some => rfl
  | call call =>
    cases call with
    | compute | update => rfl
    | set name value =>
      rw [respond, stage]
      cases graph.check name (Width.bitLength value) with
      | error | ok => rfl
    | setWord name value =>
      rw [respond, stage]
      cases graph.check name (Width.bitLength value.toNat) with
      | error | ok => rfl

theorem respondedHeld (requests : List Request) :
    (graph.responded snapshot requests).captured.isSome = snapshot.captured.isSome := by
  induction requests generalizing snapshot with
  | nil => rfl
  | cons request rest ih => exact ih.trans (graph.respondHeld request)

theorem responsesAlike (alike : snapshot.Alike snapshot') (requests : List Request) :
    graph.responses snapshot requests = graph.responses snapshot' requests := by
  induction requests generalizing snapshot snapshot' with
  | nil => rfl
  | cons request rest ih =>
    obtain ⟨answer, alike'⟩ := graph.respondAlike alike request
    exact congrArg₂ List.cons answer (ih alike')

end Graph

inductive Engine.Monitors (engine : Engine) (symbols : Symbols) (inputs : Layout) (graph : Graph) :
    Option Taps → Option (List Nat) → Prop
  | off : Monitors engine symbols inputs graph none none
  | on {taps : Taps} {name : String} (named : symbols.capture = some name)
      (wraps : engine.Wraps name (Wrapper.captureBody inputs) (graph.captureBody taps.region.layout))
      (fit : taps.region.layout.Writable)
      (members : List.Forall₂ (fun (member : Member) (tap : Tap) =>
        member.name = tapName tap.path tap.pin ∧ member.width = tap.width) taps.region.layout.members graph.taps)
      (sized : taps.region.data.size = taps.region.layout.size) :
      Monitors engine symbols inputs graph (some taps) (some taps.region.numbers)

structure Simulator.Stands (sim : Simulator) (graph : Graph) (snapshot : Snapshot) : Prop where
  serves : sim.Serves graph
  inputs : sim.inputs.data.size = sim.inputs.layout.size
  outputs : sim.outputs.data.size = sim.outputs.layout.size
  room : sim.state.size = graph.stateBytes + 16
  staged : sim.inputs.numbers = snapshot.staged
  shown : sim.outputs.numbers = snapshot.shown
  captured : sim.engine.Monitors sim.symbols sim.inputs.layout graph sim.taps snapshot.captured
  state : sim.state = snapshot.state

def Simulator.refilled (sim : Simulator) (data : Bytes) : Simulator :=
  { sim with taps := sim.taps.map fun taps => { taps with region := ⟨taps.region.layout, data⟩ } }

/- What can be read off a simulator: its records by name, and its state. -/
structure Visible where
  inputs : List (String × Nat)
  outputs : List (String × Nat)
  taps : List (String × Nat)
  state : Bytes
  stateBytes : Nat
  deriving DecidableEq, Repr

def Simulator.visible (sim : Simulator) : Visible :=
  ⟨sim.inputs.values, sim.outputs.values, (sim.taps.map (·.region.values)).getD [], sim.state, sim.stateBytes⟩

def Graph.visible (graph : Graph) (snapshot : Snapshot) : Visible where
  inputs := (graph.inputs.map (·.name)).zip snapshot.staged
  outputs := (graph.outputs.map (·.1.name)).zip snapshot.shown
  taps := (graph.taps.map fun tap => tapName tap.path tap.pin).zip (snapshot.captured.getD [])
  state := snapshot.state
  stateBytes := graph.stateBytes

namespace Record

variable {layout : Layout} {data : Bytes}

theorem numbersAre {α : Type} {xs : List α} {value : α → Nat} (count : layout.members.length = xs.length)
    (packed : ∀ (k : Nat) (x : α) (member : Member), xs[k]? = some x → layout.members[k]? = some member →
      (Record.mk layout data).value member = value x) : (Record.mk layout data).numbers = xs.map value := by
  refine List.ext_getElem (by simpa [numbers] using count) fun k inside inside' => ?_
  rw [numbers, List.length_map] at inside
  rw [List.length_map] at inside'
  simp only [numbers, List.getElem_map]
  exact packed k _ _ (List.getElem?_eq_getElem inside') (List.getElem?_eq_getElem inside)

theorem numbersPut (placed : layout.WellPlaced) (sized : data.size = layout.size) {i v : Nat} {member : Member}
    (known : layout.members[i]? = some member) (fits : v < 2 ^ member.width) :
    (Record.mk layout (data.put member.offset member.width v)).numbers = (Record.mk layout data).numbers.set i v := by
  have mem := List.mem_of_getElem? known
  have room := layout.rules.leRoom member.width
  refine List.ext_getElem (by simp [numbers]) fun j inside _ => ?_
  rw [numbers, List.length_map] at inside
  have known' := List.getElem?_eq_getElem inside
  simp only [numbers, List.getElem_map, List.getElem_set]
  split
  · rename_i same
    subst same
    rw [← Option.some.inj (known.symm.trans known')]
    exact putOwn placed mem sized (Nat.le_refl _) room fits
  · rename_i other
    exact putOther placed mem sized room known known' (Ne.symm other)

end Record

theorem Record.getAt {record : Record} {i : Nat} {member : Member} (known : record.layout.members[i]? = some member) :
    record.get (.position i) = .ok (record.value member) := by
  obtain ⟨inside, -⟩ := List.getElem?_eq_some_iff.mp known
  have key : record.member (.position i) = .ok member := by
    simp only [Record.member, Record.member?, Record.position?, if_pos inside, Option.bind_some, known]
  rw [Record.get, key]
  rfl

theorem Record.valuesZip (record : Record) : record.values = record.layout.names.zip record.numbers :=
  List.zip_map'.symm

theorem Taps.namesSame {taps : Taps} {graph : Graph} (named : List.Forall₂ (fun (member : Member) (tap : Tap) =>
    member.name = tapName tap.path tap.pin) taps.region.layout.members graph.taps) :
    taps.region.layout.names = graph.taps.map fun tap => tapName tap.path tap.pin := by
  rw [Layout.names, ← List.forall₂_eq_eq_eq, List.forall₂_map_left_iff, List.forall₂_map_right_iff]
  exact named

theorem Taps.findSame {taps : Taps} {graph : Graph} (named : List.Forall₂ (fun (member : Member) (tap : Tap) =>
    member.name = tapName tap.path tap.pin) taps.region.layout.members graph.taps) (path : List String) (pin : String) :
    taps.find? path pin = graph.tap? path pin := by
  have same := Taps.namesSame named
  have first := congrArg (List.findIdx? fun name => decide (name = tapName path pin)) same
  rw [Layout.names, List.findIdx?_map, List.findIdx?_map] at first
  exact first

/- A record can hold the taps: each has a name of its own, and none is empty. -/
structure Graph.Recordable (graph : Graph) : Prop where
  distinct : (graph.taps.map fun tap => tapName tap.path tap.pin).Nodup
  sized : ∀ tap ∈ graph.taps, tap.width ≠ 0

theorem Taps.ofGraphIff {rules : Rules} {graph : Graph} :
    (∃ taps, ofGraph rules graph = .ok taps) ↔ graph.Recordable := by
  have placed := @Layout.ofMembersIff rules (graph.taps.map fun tap => (tapName tap.path tap.pin, tap.width))
  rw [List.map_map] at placed
  constructor
  · rintro ⟨taps, made⟩
    obtain ⟨region, laidOut, -⟩ := Result.okBind made
    obtain ⟨layout, known, -⟩ := Result.okMap laidOut
    obtain ⟨distinct, sized⟩ := placed.mp ⟨layout, known⟩
    exact ⟨distinct, fun tap mem => sized _ (List.mem_map.mpr ⟨tap, mem, rfl⟩)⟩
  · intro recordable
    have sized : ∀ entry ∈ graph.taps.map fun tap => (tapName tap.path tap.pin, tap.width), entry.2 ≠ 0 := by
      intro entry mem
      obtain ⟨tap, known, rfl⟩ := List.mem_map.mp mem
      exact recordable.sized tap known
    obtain ⟨layout, known⟩ := placed.mpr ⟨recordable.distinct, sized⟩
    have record : Record.ofMembers rules _ = .ok (Record.ofLayout layout) := congrArg (Except.map Record.ofLayout) known
    exact ⟨_, by rw [ofGraph, record]; rfl⟩

theorem Taps.ofGraphTaps {rules : Rules} {graph : Graph} {taps : Taps} (made : ofGraph rules graph = .ok taps) :
    taps.records.map (fun record => (record.path, record.pin, record.width)) =
      graph.taps.map fun tap => (tap.path, tap.pin, tap.width) := by
  obtain ⟨region, laidOut, done⟩ := Result.okBind made
  cases done
  obtain ⟨layout, placed, rfl⟩ := Result.okMap laidOut
  obtain ⟨-, -, entries⟩ := Layout.ofMembersPlaced placed
  have count : graph.taps.length ≤ layout.members.length := by
    have same := congrArg List.length entries
    rw [List.length_map, List.length_map] at same
    exact Nat.le_of_eq same.symm
  have zipped := congrArg (List.map fun tap : Tap => (tap.path, tap.pin, tap.width)) (List.map_fst_zip count)
  rw [List.map_map] at zipped
  rw [List.map_map]
  exact zipped

namespace Simulator

theorem Serves.checkSame {sim : Simulator} {graph : Graph} (serves : sim.Serves graph) (name : String) (bits : Nat) :
    sim.checkInput name bits = graph.check name bits := by
  have first : graph.inputs.findIdx? (·.name = name) = sim.inputs.layout.position? name := by
    rw [← serves.inputPorts, List.findIdx?_map, Layout.position?]
    rfl
  rw [checkInput, Graph.check, first]
  cases found : sim.inputs.layout.position? name with
  | none => rfl
  | some index =>
    obtain ⟨inside, -⟩ := List.findIdx?_eq_some_iff_getElem.mp found
    have width : (graph.inputs.getD index default).width = (sim.inputs.layout.members.getD index default).width := by
      rw [← serves.inputPorts, List.getD_eq_getElem?_getD, List.getD_eq_getElem?_getD, List.getElem?_map,
        List.getElem?_eq_getElem inside]
      rfl
    simp only [width]

section Step

variable {sim : Simulator} {graph : Graph} {snapshot : Snapshot} (stands : sim.Stands graph snapshot)
include stands

theorem stagePut {name : String} {value index : Nat} (checked : graph.check name (Width.bitLength value) = .ok index) :
    ∃ member, sim.inputs.layout.members[index]? = some member ∧ value < 2 ^ member.width := by
  rw [← stands.serves.checkSame, checkInput] at checked
  cases found : sim.inputs.layout.position? name with
  | none =>
    rw [found] at checked
    cases checked
  | some k =>
    obtain ⟨member, known, -⟩ := Layout.positionAt found
    simp only [found, List.getD_eq_getElem?_getD, known, Option.getD_some] at checked
    split at checked
    · cases checked
    · rename_i fits
      cases checked
      exact ⟨_, known, Width.bitLengthLe.mp (Nat.le_of_not_lt fits)⟩

theorem stageStands {name : String} {value : Nat} {staged : Except Fault Simulator}
    (refuses : ∀ fault, graph.check name (Width.bitLength value) = .error fault → staged = .error fault)
    (puts : ∀ (index : Nat) (member : Member), graph.check name (Width.bitLength value) = .ok index →
      sim.inputs.layout.members[index]? = some member → staged =
        .ok { sim with inputs := ⟨sim.inputs.layout, sim.inputs.data.put member.offset member.width value⟩ }) :
    (∃ fault, staged = .error fault ∧ graph.stage snapshot name value = (.error fault, snapshot)) ∨
      ∃ sim' snapshot', staged = .ok sim' ∧ graph.stage snapshot name value = (.ok none, snapshot') ∧
        sim'.Stands graph snapshot' := by
  cases checked : graph.check name (Width.bitLength value) with
  | error fault => exact .inl ⟨fault, refuses fault checked, by rw [Graph.stage, checked]⟩
  | ok index =>
    obtain ⟨member, known, fits⟩ := stagePut stands checked
    refine .inr ⟨_, { snapshot with staged := snapshot.staged.set index value }, puts index member checked known,
      by rw [Graph.stage, checked], { stands with
        serves := { stands.serves with }, inputs := (Bytes.putSize _ _ _ _).trans stands.inputs, staged := ?_ }⟩
    simp only [← stands.staged]
    exact Record.numbersPut stands.serves.inputs.placed stands.inputs known fits

theorem setStands (name : String) (value : Nat) :
    (sim.ask (.call (.set name value))).1 = (graph.stage snapshot name value).1 ∧
      (sim.ask (.call (.set name value))).2.Stands graph (graph.stage snapshot name value).2 := by
  have checked := stands.serves.checkSame name (Width.bitLength value)
  have cases := @stageStands sim graph snapshot stands name value (sim.setInput name value) ?_ ?_
  · rcases cases with ⟨fault, refused, same⟩ | ⟨sim', snapshot', set, same, stands'⟩
    · simp only [ask, call, attempt, refused, same]
      exact ⟨rfl, stands⟩
    · simp only [ask, call, attempt, set, same]
      exact ⟨rfl, stands'⟩
  · intro fault refused
    rw [setInput, checked, refused]
    rfl
  · intro index member accepted known
    have put : sim.inputs.set (.position index) value = .ok _ :=
      Record.setPut stands.serves.inputs.placed stands.inputs (List.mem_of_getElem? known) known value
    rw [setInput, checked, accepted]
    simp only [bind, Except.bind, put, pure, Except.pure]

theorem setWordStands (name : String) (value : UInt64) :
    (sim.ask (.call (.setWord name value))).1 = (graph.stage snapshot name value.toNat).1 ∧
      (sim.ask (.call (.setWord name value))).2.Stands graph (graph.stage snapshot name value.toNat).2 := by
  have checked := stands.serves.checkSame name (Width.bitLength value.toNat)
  have cases := @stageStands sim graph snapshot stands name value.toNat (sim.setInputWord name value.toNat) ?_ ?_
  · rcases cases with ⟨fault, refused, same⟩ | ⟨sim', snapshot', set, same, stands'⟩
    · simp only [ask, call, attempt, refused, same]
      exact ⟨rfl, stands⟩
    · simp only [ask, call, attempt, set, same]
      exact ⟨rfl, stands'⟩
  · intro fault refused
    rw [setInputWord, checked, refused]
    rfl
  · intro index member accepted known
    have put : sim.inputs.setWord (.position index) value.toNat = .ok _ :=
      Record.setWordPut stands.serves.inputs.placed stands.inputs (List.mem_of_getElem? known) known value.toNat_lt
    rw [setInputWord, checked, accepted]
    simp only [bind, Except.bind, put, pure, Except.pure]

theorem standsChecked : sim.checkBuffers = .ok () :=
  stands.serves.buffersChecked stands.inputs stands.outputs stands.room

theorem numbersFit : List.Forall₂ (fun n (port : Port) => n < 2 ^ port.width) snapshot.staged graph.inputs :=
  stands.staged ▸ stands.serves.numbersFit stands.inputs

theorem computeShown {values : Nat → Nat}
    (small : ∀ output ∈ graph.outputs, output.2.value snapshot.given values < 2 ^ output.1.width)
    (computes : graph.ComputesAt 2 (Wrapper.slotsOf graph.outputs.length) snapshot.staged snapshot.state values) :
    (sim.ask (.call .compute)).1 = .ok none ∧ (sim.ask (.call .compute)).2.Stands graph
      { snapshot with shown := graph.outputs.map fun output => output.2.value snapshot.given values } := by
  unfold Snapshot.given at small
  rw [← stands.staged] at small computes
  rw [← stands.state] at computes
  have result := stands.serves.computedAt stands.inputs stands.outputs stands.room small computes
  obtain ⟨next, ran, size, packed⟩ := stands.serves.showsAt stands.inputs stands.outputs stands.room small computes
  cases ran.symm.trans result
  rw [stands.staged] at packed size result
  have shown := Record.numbersAre stands.serves.outputMembers.length_eq packed
  simp only [ask, call, attempt, result]
  exact ⟨rfl, { stands with serves := { stands.serves with }, outputs := size, shown := shown }⟩

theorem updateShown {data : Bytes} (size : data.size = snapshot.state.size)
    (updates : graph.UpdatesAt 1 snapshot.staged snapshot.state data) :
    (sim.ask (.call .update)).1 = .ok none ∧
      (sim.ask (.call .update)).2.Stands graph { snapshot with state := data } := by
  rw [← stands.staged, ← stands.state] at updates
  have result := stands.serves.updatedAt stands.inputs stands.outputs stands.room updates
  simp only [ask, call, attempt, result]
  rw [← stands.state] at size
  exact ⟨rfl, { stands with serves := { stands.serves with }, room := size.trans stands.room, state := rfl }⟩

section Look

variable {captured : List Nat} (held : snapshot.captured = some captured) {path : List String} {pin : String} {k : Nat}
  {tap : Tap} (found : graph.tap? path pin = some k) (here : graph.taps[k]? = some tap)
include held found here

theorem lookShown {values : Nat → Nat} (captures : ∀ layout : Layout, layout.Writable →
      List.Forall₂ (fun (member : Member) (tap : Tap) => member.width = tap.width) layout.members graph.taps →
        graph.CapturesAt layout 1 2 snapshot.staged snapshot.state values) : ∃ data,
      sim.getValue path pin = .ok (tap.source.value snapshot.given values, sim.refilled data) ∧
        (sim.refilled data).Stands graph
          { snapshot with captured := some (graph.taps.map fun tap => tap.source.value snapshot.given values) } := by
  have monitors := stands.captured
  generalize tapped : sim.taps = taps at monitors
  rw [held] at monitors
  cases monitors with
  | @on taps name named wraps fit members sized =>
    have first := (Taps.findSame (members.imp fun _ _ both => both.1) path pin).trans found
    obtain ⟨member, known, -⟩ := Result.forallAt members.flip here
    have taken := captures taps.region.layout fit (members.imp fun _ _ both => both.2)
    rw [← stands.staged, ← stands.state] at taken
    obtain ⟨data, result, packed⟩ := stands.serves.capturedAt stands.inputs named wraps taken sized
    rw [stands.staged] at packed
    have put : ∀ (k : Nat) (tap : Tap) (member : Member), graph.taps[k]? = some tap →
        taps.region.layout.members[k]? = some member →
          (Record.mk taps.region.layout data).value member = tap.source.value snapshot.given values := by
      intro k tap member here known
      rw [packed.put k member (Nat.zero_le k) known, Graph.tapNumber, List.getD_eq_getElem?_getD, here,
        Option.getD_some]
      rfl
    have read := @Record.getAt ⟨taps.region.layout, data⟩ _ _ known
    refine ⟨data, ?_, { stands with serves := { stands.serves with }, captured := ?_ }⟩
    · have full : checkBuffer "debug" taps.size taps.region.data = .ok () := if_pos sized.symm
      simp only [getValue, standsChecked stands, refilled, tapped, Option.map_some, first, full, result, read, bind,
        Except.bind, pure, Except.pure]
      rw [put k tap member here known]
    · simp only [refilled, tapped, Option.map_some, ← Record.numbersAre members.length_eq put]
      exact .on named wraps fit members packed.size

end Look

theorem lookRefused {path : List String} {pin : String}
    (missing : snapshot.captured = none ∨ graph.tap? path pin = none) :
    (sim.ask (.get path pin)).1 = (graph.look snapshot path pin).1 ∧
      (sim.ask (.get path pin)).2.Stands graph (graph.look snapshot path pin).2 := by
  have monitors := stands.captured
  generalize tapped : sim.taps = taps at monitors
  generalize held : snapshot.captured = captured at monitors missing
  cases monitors with
  | off =>
    simp only [ask, getValue, standsChecked stands, tapped, Graph.look, held, bind, Except.bind]
    exact ⟨trivial, stands⟩
  | on named wraps fit members sized =>
    have unknown := missing.resolve_left nofun
    have first := (Taps.findSame (members.imp fun _ _ both => both.1) path pin).trans unknown
    simp only [ask, getValue, standsChecked stands, tapped, first, Graph.look, held, unknown, bind, Except.bind]
    exact ⟨trivial, stands⟩

variable (wellFormed : graph.WellFormed)
include wellFormed

theorem standsSettled : graph.Settled (fun k => sim.inputs.numbers.getD k 0) (Node.words sim.state)
    (graph.evaluate snapshot.given (Node.words snapshot.state)) := by
  rw [stands.staged, stands.state]
  exact Graph.evaluateSettled wellFormed snapshot.given (Node.words snapshot.state)

omit wellFormed in
theorem standsRoom : graph.stateBytes < snapshot.state.size := by
  rw [← stands.state, stands.room]
  omega

theorem computeStands : (sim.ask (.call .compute)).1 = (graph.respond snapshot (.call .compute)).1 ∧
    (sim.ask (.call .compute)).2.Stands graph (graph.respond snapshot (.call .compute)).2 := by
  have fits := numbersFit stands
  have settled := Graph.evaluateSettled wellFormed snapshot.given (Node.words snapshot.state)
  refine computeShown stands (fun output mem => ?_) ((wellFormed.computes fits (standsRoom stands) settled).at 2 _)
  exact Graph.sourceLt wellFormed (fun node _ => node.wordsLt snapshot.state) settled (Graph.argsAdmit fits)
    (wellFormed.outputs output mem).1

theorem updateStands : (sim.ask (.call .update)).1 = (graph.respond snapshot (.call .update)).1 ∧
    (sim.ask (.call .update)).2.Stands graph (graph.respond snapshot (.call .update)).2 :=
  updateShown stands (Graph.advanceSize _ _ _ _)
    ((wellFormed.updates (numbersFit stands) (standsRoom stands) (Graph.evaluateSettled wellFormed _ _)).at 1)

theorem lookShows (shown : graph.TapsFit) {captured : List Nat} (held : snapshot.captured = some captured)
    {path : List String} {pin : String} {k : Nat} {tap : Tap} (found : graph.tap? path pin = some k)
    (here : graph.taps[k]? = some tap) : ∃ data,
      sim.getValue path pin = .ok (snapshot.value graph tap.source, sim.refilled data) ∧
        (sim.refilled data).Stands graph
          { snapshot with captured := some (graph.taps.map fun tap => snapshot.value graph tap.source) } :=
  lookShown stands held found here fun _ fit widths =>
    (wellFormed.captures shown (numbersFit stands) (standsRoom stands) (Graph.evaluateSettled wellFormed _ _) fit widths).at 1 2

theorem lookStands (shown : graph.TapsFit) (path : List String) (pin : String) :
    (sim.ask (.get path pin)).1 = (graph.look snapshot path pin).1 ∧
      (sim.ask (.get path pin)).2.Stands graph (graph.look snapshot path pin).2 := by
  cases held : snapshot.captured with
  | none => exact lookRefused stands (.inl held)
  | some captured =>
    cases found : graph.tap? path pin with
    | none => exact lookRefused stands (.inr found)
    | some k =>
      obtain ⟨inside, -⟩ := List.findIdx?_eq_some_iff_getElem.mp found
      have here := List.getElem?_eq_getElem inside
      obtain ⟨data, read, stands'⟩ := lookShows stands wellFormed shown held found here
      simp only [ask, read, Graph.look, held, found, List.getD_eq_getElem?_getD, here, Option.getD_some]
      exact ⟨trivial, stands'⟩

omit wellFormed in
theorem standsVisible : sim.visible = graph.visible snapshot := by
  have inputs : sim.inputs.layout.names = graph.inputs.map (·.name) := by
    rw [← stands.serves.inputPorts, List.map_map]
    rfl
  have outputs : sim.outputs.layout.names = graph.outputs.map (·.1.name) := by
    have same := congrArg (List.map fun port : Port => port.name) stands.serves.outputPorts
    rw [List.map_map, List.map_map] at same
    exact same
  have taps : (sim.taps.map (·.region.values)).getD [] =
      (graph.taps.map fun tap => tapName tap.path tap.pin).zip (snapshot.captured.getD []) := by
    have monitors := stands.captured
    generalize sim.taps = taps at monitors
    generalize snapshot.captured = captured at monitors
    cases monitors with
    | off => rw [Option.map_none, Option.getD_none, Option.getD_none, List.zip_nil_right]
    | on named wraps fit members sized =>
      rw [Option.map_some, Option.getD_some, Option.getD_some, Record.valuesZip,
        Taps.namesSame (members.imp fun _ _ both => both.1)]
  rw [visible, Graph.visible, Record.valuesZip, Record.valuesZip, inputs, outputs, taps, stands.staged, stands.shown,
    stands.state, stands.serves.stateBytes]

theorem askStands (shown : graph.TapsFit) (request : Request) :
    (sim.ask request).1 = (graph.respond snapshot request).1 ∧
      (sim.ask request).2.Stands graph (graph.respond snapshot request).2 := by
  cases request with
  | get path pin => exact lookStands stands wellFormed shown path pin
  | call call =>
    cases call with
    | set name value => exact setStands stands name value
    | setWord name value => exact setWordStands stands name value
    | compute => exact computeStands stands wellFormed
    | update => exact updateStands stands wellFormed

theorem runStands (shown : graph.TapsFit) (requests : List Request) :
    sim.answers requests = graph.responses snapshot requests ∧
      (sim.asked requests).Stands graph (graph.responded snapshot requests) := by
  induction requests generalizing sim snapshot with
  | nil => exact ⟨rfl, stands⟩
  | cons request rest ih =>
    obtain ⟨answer, stands'⟩ := askStands stands wellFormed shown request
    obtain ⟨answers, later⟩ := ih stands'
    exact ⟨congrArg₂ List.cons answer answers, later⟩

end Step

/- Records that code can address. -/
structure Small (sim : Simulator) : Prop where
  inputs : sim.inputs.layout.size < 2 ^ 31
  outputs : sim.outputs.layout.size < 2 ^ 31
  taps : ∀ taps ∈ sim.taps, taps.region.layout.size < 2 ^ 31

instance (sim : Simulator) : Decidable sim.Small :=
  decidable_of_iff (sim.inputs.layout.size < 2 ^ 31 ∧ sim.outputs.layout.size < 2 ^ 31 ∧
      ∀ taps ∈ sim.taps, taps.region.layout.size < 2 ^ 31)
    ⟨fun ⟨inputs, outputs, taps⟩ => ⟨inputs, outputs, taps⟩, fun small => ⟨small.inputs, small.outputs, small.taps⟩⟩

theorem recordsTaps {circuit : Circuit} {library : Library} {settings : Settings} {top : Nat} {sim : Simulator}
    {graph : Graph} (fresh : Fresh circuit library settings top sim graph) (set : settings.taps = true) :
    graph.Recordable ∧ sim.tapRecords.map (fun record => (record.path, record.pin, record.width)) =
      graph.taps.map fun tap => (tap.path, tap.pin, tap.width) := by
  have instrumented := fresh.taps
  unfold tapRecords
  generalize sim.taps = taps at instrumented
  cases instrumented with
  | off unset => exact absurd set (unset ▸ Bool.false_ne_true)
  | on _ laidOut => exact ⟨Taps.ofGraphIff.mp ⟨_, laidOut⟩, Taps.ofGraphTaps laidOut⟩

theorem tapsCount {graph : Graph} (wellFormed : graph.WellFormed) (shown : graph.TapsFit) :
    ∀ tap ∈ graph.taps, tap.width + 7 < 2 ^ 32 := by
  intro tap mem
  have narrow := (Graph.widthFits wellFormed (shown tap mem)).2
  omega

theorem monitorsFresh {sim : Simulator} {settings : Settings} {graph : Graph} {taps : Option Taps}
    (instrumented : sim.Instrumented settings graph taps)
    (counts : settings.taps = true → ∀ tap ∈ graph.taps, tap.width + 7 < 2 ^ 32)
    (small : ∀ made ∈ taps, made.region.layout.size < 2 ^ 31) :
    sim.engine.Monitors sim.symbols sim.inputs.layout graph taps (graph.start settings.taps).captured := by
  cases instrumented with
  | off unset =>
    rw [Graph.start, unset]
    exact .off
  | @on taps name set made named wraps =>
    obtain ⟨region, laidOut, done⟩ := Result.okBind made
    cases done
    obtain ⟨layout, placing, rfl⟩ := Result.okMap laidOut
    obtain ⟨placed, -, entries⟩ := Layout.ofMembersPlaced placing
    have members : List.Forall₂ (fun (member : Member) (tap : Tap) => (member.name, member.width) =
        (tapName tap.path tap.pin, tap.width)) layout.members graph.taps := by
      rw [← List.forall₂_eq_eq_eq, List.forall₂_map_left_iff, List.forall₂_map_right_iff] at entries
      exact entries
    have counted : ∀ member ∈ layout.members, member.width + 7 < 2 ^ 32 := by
      intro member mem
      obtain ⟨tap, known, same⟩ := Result.forallMem members.flip member mem
      rw [(Prod.mk.inj same).2]
      exact counts set tap known
    have zero : (Record.ofLayout layout).numbers = graph.taps.map fun _ => 0 :=
      Record.numbersAre members.length_eq fun k _ member _ known =>
        @Record.valueZero (.ofLayout layout) placed rfl member (List.mem_of_getElem? known)
    rw [Graph.start, set, if_pos rfl, ← zero]
    exact .on named wraps ⟨placed, counted, small _ rfl⟩ (members.imp fun _ _ same => Prod.mk.inj same)
      (Bytes.zerosSize _)

theorem freshStands {circuit : Circuit} {library : Library} {settings : Settings} {top : Nat} {sim : Simulator}
    {graph : Graph} (fresh : Fresh circuit library settings top sim graph)
    (counts : settings.taps = true → ∀ tap ∈ graph.taps, tap.width + 7 < 2 ^ 32) (small : sim.Small) :
    sim.Stands graph (graph.start settings.taps) := by
  have serves := fresh.serves
  refine ⟨serves, ?_, ?_, ?_, ?_, ?_, monitorsFresh fresh.taps counts small.taps, fresh.state⟩
  · rw [fresh.inputs, Bytes.zerosSize]
  · rw [fresh.outputs, Bytes.zerosSize]
  · rw [fresh.state, Bytes.zerosSize]
  · have count := congrArg List.length serves.inputPorts
    rw [List.length_map] at count
    exact Record.numbersAre count fun k _ member _ known =>
      Record.valueZero serves.inputs.placed fresh.inputs member (List.mem_of_getElem? known)
  · exact Record.numbersAre serves.outputMembers.length_eq fun k _ member _ known =>
      Record.valueZero serves.outputs.placed fresh.outputs member (List.mem_of_getElem? known)

end Simulator

end CircuitSim
