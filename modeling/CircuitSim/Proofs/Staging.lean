import CircuitSim.Proofs.Members
import CircuitSim.Proofs.Snapshot

/-! Staging an input: exactly the values that fit a port are accepted, and nothing but the port is changed by one.
Main statement: `inputsStage`. -/
namespace CircuitSim

theorem Key.meansPort {ports : List Port} {name : String} {i : Nat} :
    Key.Means (ports.map fun port => (port.name, port.width)) i (.name name) ↔
      ∃ port, ports[i]? = some port ∧ port.name = name := by
  rw [Means, List.getElem?_map, Option.map_map, Option.map_eq_some_iff]
  rfl

namespace Record

structure Offers (record : Record) (ports : List Port) (staged : String → Nat) : Prop where
  maps : record.Maps (ports.map fun port => (port.name, port.width))
    fun i => (ports[i]?.map fun port => staged port.name).getD 0
  fits : ∀ port ∈ ports, staged port.name < 2 ^ port.width

namespace Offers

variable {record : Record} {ports : List Port} {staged : String → Nat} (offers : record.Offers ports staged)
include offers

theorem distinct : (ports.map (·.name)).Nodup := by
  have distinct := offers.maps.distinct
  rw [List.map_map] at distinct
  exact distinct

theorem positionIff {name : String} {i : Nat} :
    record.layout.position? name = some i ↔ ∃ port, ports[i]? = some port ∧ port.name = name := by
  have means : record.position? (.name name) = some i ↔ _ := offers.maps.positionIff
  exact means.trans Key.meansPort

theorem memberAt {i : Nat} {port : Port} (here : ports[i]? = some port) :
    ∃ member, record.layout.members[i]? = some member ∧ member.name = port.name ∧ member.width = port.width :=
  offers.maps.memberAt (by rw [List.getElem?_map, here, Option.map_some])

theorem getPort {port : Port} (mem : port ∈ ports) : record.get (.name port.name) = .ok (staged port.name) := by
  obtain ⟨i, here⟩ := List.mem_iff_getElem?.mp mem
  obtain ⟨member, known, -, width⟩ := offers.memberAt here
  rw [offers.maps.getMeant known (Key.meansPort.mpr ⟨port, here, rfl⟩), here, Option.map_some, Option.getD_some, width,
    Nat.mod_eq_of_lt (offers.fits port mem)]

theorem getOther {name : String} (unknown : ∀ port ∈ ports, port.name ≠ name) :
    record.get (.name name) = .error (.unknownMember name) := by
  have meaningless : ∀ i, ¬Key.Means (ports.map fun port => (port.name, port.width)) i (.name name) := by
    intro i means
    obtain ⟨port, here, named⟩ := Key.meansPort.mp means
    exact unknown port (List.mem_of_getElem? here) named
  rw [get, offers.maps.memberUnknown meaningless]
  rfl

theorem put {i : Nat} {port : Port} (here : ports[i]? = some port) {member : Member}
    (known : record.layout.members[i]? = some member) {v : Nat} (small : v < 2 ^ port.width) :
    Offers ⟨record.layout, record.data.put member.offset member.width v⟩ ports
      fun name => if name = port.name then v else staged name := by
  have numbers : (fun j => (ports[j]?.map fun other => if other.name = port.name then v else staged other.name).getD 0) =
      fun j => if j = i then v else (ports[j]?.map fun other => staged other.name).getD 0 := by
    funext j
    by_cases own : j = i
    · rw [if_pos own, own, here, Option.map_some, if_pos rfl, Option.getD_some]
    · rw [if_neg own]
      cases there : ports[j]? with
      | none => rfl
      | some other =>
        have apart : other.name ≠ port.name := fun same => own (Result.indexInj offers.distinct there here same)
        rw [Option.map_some, if_neg apart, Option.map_some]
  refine ⟨numbers ▸ offers.maps.put known v, fun other mem => ?_⟩
  split
  · rename_i same
    obtain ⟨j, there⟩ := List.mem_iff_getElem?.mp mem
    obtain rfl := Result.indexInj offers.distinct there here same
    obtain rfl := Option.some.inj (there.symm.trans here)
    exact small
  · exact offers.fits other mem

end Offers

end Record

def Wrapper.Takes (record : Record) (numbers : List Nat) : Prop :=
  ∀ (context : Context) (frame : Frame) (memory : Memory) (ptr : Ref) (block : Nat), memory[block]? = some record.data →
    frame.Holds ptr (.address block 0) →
      Emit.Meets context (fun _ => True) (loadRecord record.layout ptr) frame memory fun refs frame' memory' =>
        memory' = memory ∧ List.Forall₂ (fun n ref => frame'.Holds ref (.number n)) numbers refs

theorem Record.Offers.takes {record : Record} {ports : List Port} {staged : String → Nat}
    (offers : record.Offers ports staged) (narrow : ∀ port ∈ ports, port.width ≤ 128)
    (small : record.layout.size < 2 ^ 31) {number : Port → Nat}
    (got : ∀ port ∈ ports, record.get (.name port.name) = .ok (number port)) : Wrapper.Takes record (ports.map number) := by
  have portAt : ∀ {i : Nat} {member : Member}, record.layout.members[i]? = some member →
      ∃ port, ports[i]? = some port ∧ member.name = port.name ∧ member.width = port.width := by
    intro i member known
    have entry := offers.maps.entryAt known
    rw [List.getElem?_map] at entry
    obtain ⟨port, here, same⟩ := Option.map_eq_some_iff.mp entry
    exact ⟨port, here, (Prod.mk.inj same).1.symm, (Prod.mk.inj same).2.symm⟩
  have fit : record.layout.Addressable := by
    refine ⟨offers.maps.placed, fun member mem => ?_, small⟩
    obtain ⟨i, known⟩ := List.mem_iff_getElem?.mp mem
    obtain ⟨port, here, -, width⟩ := portAt known
    exact width ▸ narrow port (List.mem_of_getElem? here)
  have numbers : record.numbers = ports.map number := by
    have count := congrArg List.length offers.maps.entries
    rw [List.length_map, List.length_map] at count
    show (Record.mk record.layout record.data).numbers = _
    refine numbersAre count fun i port member here known => ?_
    have read := offers.maps.getMeant known (Key.meansPort.mpr ⟨port, here, rfl⟩)
    rw [← offers.maps.values i member known] at read
    exact Except.ok.inj (read.symm.trans (got port (List.mem_of_getElem? here)))
  intro context frame memory ptr block here held
  refine (Wrapper.loadRecordMeets fit offers.maps.sized here held).mono ?_
  rintro refs frame' memory' - ⟨same, taken⟩
  rw [← numbers, Record.numbers, List.forall₂_map_left_iff]
  exact ⟨same, taken⟩

def Request.staged? (name : String) : Request → Except Fault (Option Nat) → Option Nat
  | .call (.set other v), .ok _ => if other = name then some v else none
  | .call (.setWord other v), .ok _ => if other = name then some v.toNat else none
  | _, _ => none

namespace Simulator

structure Staged (sim next : Simulator) (ports : List Port) (name : String) (v : Nat) : Prop where
  rest : next = { sim with inputs := next.inputs }
  layout : next.inputs.layout = sim.inputs.layout
  own : next.inputs.get (.name name) = .ok v
  others : ∀ other, other ≠ name → next.inputs.get (.name other) = sim.inputs.get (.name other)
  size : next.inputs.data.size = sim.inputs.data.size
  bits : ∀ bit, (∀ member ∈ sim.inputs.layout.members, member.name = name →
    ¬(member.offset ≤ bit ∧ bit < member.offset + member.width)) → next.inputs.data.bit bit = sim.inputs.data.bit bit
  taken : sim.inputs.layout.size < 2 ^ 31 → ∀ number : Port → Nat,
    (∀ port ∈ ports, sim.inputs.get (.name port.name) = .ok (number port)) →
      Wrapper.Takes sim.inputs (ports.map number) ∧
        Wrapper.Takes next.inputs (ports.map fun port => if port.name = name then v else number port)

/- What comes of a value for a name: it is staged exactly if it fits a port of that name. -/
structure Stages (sim : Simulator) (ports : List Port) (name : String) (v : Nat) (result : Except Fault Simulator) :
    Prop where
  accepted : (∃ next, result = .ok next) ↔ ∃ port ∈ ports, port.name = name ∧ v < 2 ^ port.width
  unknown : result = .error (.unknownInput name) ↔ ∀ port ∈ ports, port.name ≠ name
  wide : ∀ port ∈ ports, port.name = name → 2 ^ port.width ≤ v →
    result = .error (.valueWidth name port.width (Width.bitLength v))
  staged : ∀ next, result = .ok next → sim.Staged next ports name v

def stage (sim : Simulator) (name : String) (payload : Record.Payload) : Except Fault Simulator := do
  let index ← sim.checkInput name (Width.bitLength payload.toNat)
  return { sim with inputs := ← sim.inputs.attempt (.put (.position index) payload) }

theorem setInputStage (sim : Simulator) (name : String) (v : Nat) : sim.setInput name v = sim.stage name (.number v) := rfl

theorem setInputWordStage (sim : Simulator) (name : String) (v : UInt64) :
    sim.setInputWord name v.toNat = sim.stage name (.word v) := rfl

section Outcome

variable {sim : Simulator} {ports : List Port} {staged : String → Nat} (offers : sim.inputs.Offers ports staged)
include offers

theorem checkUnknown {name : String} (unknown : ∀ port ∈ ports, port.name ≠ name) (bits : Nat) :
    sim.checkInput name bits = .error (.unknownInput name) := by
  have missing : sim.inputs.layout.position? name = none := by
    refine Option.eq_none_iff_forall_ne_some.mpr fun i found => ?_
    obtain ⟨port, here, named⟩ := offers.positionIff.mp found
    exact unknown port (List.mem_of_getElem? here) named
  rw [checkInput, missing]

theorem checkKnown {i : Nat} {port : Port} (here : ports[i]? = some port) (bits : Nat) : sim.checkInput port.name bits =
    if port.width < bits then .error (.valueWidth port.name port.width bits) else .ok i := by
  obtain ⟨member, known, -, width⟩ := offers.memberAt here
  have found : sim.inputs.layout.position? port.name = some i := offers.positionIff.mpr ⟨port, here, rfl⟩
  rw [checkInput, found, ← width]
  simp only [List.getD_eq_getElem?_getD, known, Option.getD_some]

theorem stageUnknown {name : String} (unknown : ∀ port ∈ ports, port.name ≠ name) (payload : Record.Payload) :
    sim.stage name payload = .error (.unknownInput name) := by
  rw [stage, checkUnknown offers unknown]
  rfl

theorem stageWide {port : Port} (mem : port ∈ ports) {payload : Record.Payload} (wide : 2 ^ port.width ≤ payload.toNat) :
    sim.stage port.name payload = .error (.valueWidth port.name port.width (Width.bitLength payload.toNat)) := by
  obtain ⟨i, here⟩ := List.mem_iff_getElem?.mp mem
  have long : port.width < Width.bitLength payload.toNat := by
    rw [← Nat.not_le, Width.bitLengthLe]
    exact Nat.not_lt_of_le wide
  rw [stage, checkKnown offers here, if_pos long]
  rfl

theorem stageFits {i : Nat} {port : Port} (here : ports[i]? = some port) {member : Member}
    (known : sim.inputs.layout.members[i]? = some member) {payload : Record.Payload}
    (small : payload.toNat < 2 ^ port.width) : sim.stage port.name payload =
      .ok { sim with inputs := ⟨sim.inputs.layout, sim.inputs.data.put member.offset member.width payload.toNat⟩ } := by
  have short : ¬port.width < Width.bitLength payload.toNat := by
    rw [Nat.not_lt, Width.bitLengthLe]
    exact small
  have means : Key.Means (ports.map fun port => (port.name, port.width)) i (.position i) :=
    ⟨rfl, by rw [List.length_map]; exact (List.getElem?_eq_some_iff.mp here).1⟩
  rw [stage, checkKnown offers here, if_neg short]
  simp only [bind, Except.bind, offers.maps.attemptMeant known means]
  rfl

theorem stagePort (narrow : ∀ port ∈ ports, port.width ≤ 128) {port : Port} (mem : port ∈ ports)
    {payload : Record.Payload} (small : payload.toNat < 2 ^ port.width) : ∃ next,
      sim.stage port.name payload = .ok next ∧ sim.Staged next ports port.name payload.toNat ∧
        next.inputs.Offers ports fun name => if name = port.name then payload.toNat else staged name := by
  obtain ⟨i, here⟩ := List.mem_iff_getElem?.mp mem
  obtain ⟨member, known, named, width⟩ := offers.memberAt here
  have later := offers.put here known small
  refine ⟨_, stageFits offers here known small, ⟨rfl, rfl, ?_, fun other apart => ?_, Bytes.putSize _ _ _ _, fun bit free => ?_,
    fun addressable number got => ⟨offers.takes narrow addressable got, later.takes narrow addressable fun other mem' => ?_⟩⟩,
    later⟩
  · rw [later.getPort mem, if_pos rfl]
  · by_cases listed : ∃ port' ∈ ports, port'.name = other
    · obtain ⟨port', mem', rfl⟩ := listed
      rw [later.getPort mem', offers.getPort mem', if_neg apart]
    · have unknown : ∀ port' ∈ ports, port'.name ≠ other := fun port' mem' same => listed ⟨port', mem', same⟩
      rw [later.getOther unknown, offers.getOther unknown]
  · rw [Bytes.putBitWithin (offers.maps.inside known), if_neg (free member (List.mem_of_getElem? known) named)]
  · rw [later.getPort mem']
    split
    · rfl
    · exact (offers.getPort mem').symm.trans (got other mem')

theorem stageStages (narrow : ∀ port ∈ ports, port.width ≤ 128) (name : String) (payload : Record.Payload) :
    sim.Stages ports name payload.toNat (sim.stage name payload) := by
  by_cases listed : ∃ port ∈ ports, port.name = name
  · obtain ⟨port, mem, rfl⟩ := listed
    have only : ∀ other ∈ ports, other.name = port.name → other = port := fun other mem' same =>
      List.inj_on_of_nodup_map offers.distinct mem' mem same
    have known : ¬∀ other ∈ ports, other.name ≠ port.name := fun none => none port mem rfl
    by_cases small : payload.toNat < 2 ^ port.width
    · obtain ⟨next, ok, staged, -⟩ := stagePort offers narrow mem small
      refine ⟨iff_of_true ⟨next, ok⟩ ⟨port, mem, rfl, small⟩, iff_of_false (by simp [ok]) known,
        fun other mem' same wide => ?_, fun next' ok' => ?_⟩
      · rw [only other mem' same] at wide
        exact absurd small (Nat.not_lt_of_le wide)
      · obtain rfl := Except.ok.inj (ok.symm.trans ok')
        exact staged
    · have refused := stageWide offers mem (Nat.le_of_not_lt small)
      refine ⟨iff_of_false (by simp [refused]) fun ⟨other, mem', same, fits⟩ => small (only other mem' same ▸ fits),
        iff_of_false (by simp [refused]) known, fun other mem' same _ => only other mem' same ▸ refused, fun next ok => ?_⟩
      cases refused.symm.trans ok
  · have unknown : ∀ port ∈ ports, port.name ≠ name := fun port mem same => listed ⟨port, mem, same⟩
    have refused := stageUnknown offers unknown payload
    refine ⟨iff_of_false (by simp [refused]) fun ⟨port, mem, same, _⟩ => unknown port mem same, iff_of_true refused unknown,
      fun port mem same _ => absurd same (unknown port mem), fun next ok => ?_⟩
    cases refused.symm.trans ok

theorem stageOffers (narrow : ∀ port ∈ ports, port.width ≤ 128) {name : String} {payload : Record.Payload}
    {next : Simulator} (ok : sim.stage name payload = .ok next) :
    next.inputs.Offers ports fun other => if other = name then payload.toNat else staged other := by
  obtain ⟨port, mem, rfl, small⟩ := (stageStages offers narrow name payload).accepted.mp ⟨next, ok⟩
  obtain ⟨next', ok', -, later⟩ := stagePort offers narrow mem small
  obtain rfl := Except.ok.inj (ok'.symm.trans ok)
  exact later

theorem stageWord (name : String) (v : UInt64) : sim.stage name (.word v) = sim.stage name (.number v.toNat) := by
  have same (key : Key) : sim.inputs.attempt (.put key (.word v)) = sim.inputs.attempt (.put key (.number v.toNat)) := by
    by_cases known : ∃ i, key.Means (ports.map fun port => (port.name, port.width)) i
    · obtain ⟨i, means⟩ := known
      obtain ⟨member, here⟩ := offers.maps.meant means
      rw [offers.maps.attemptMeant here means, offers.maps.attemptMeant here means]
      rfl
    · rw [offers.maps.attemptUnknown (not_exists.mp known), offers.maps.attemptUnknown (not_exists.mp known)]
  simp only [stage, same]
  rfl

end Outcome

def lastStaged (sim : Simulator) (requests : List Request) (name : String) : Nat :=
  ((requests.zip (sim.answers requests)).reverse.findSome? fun asked => asked.1.staged? name asked.2).getD 0

theorem answersSnoc (sim : Simulator) (requests : List Request) (request : Request) :
    sim.answers (requests ++ [request]) = sim.answers requests ++ [((sim.asked requests).ask request).1] := by
  induction requests generalizing sim with
  | nil => rfl
  | cons first rest ih => exact congrArg (_ :: ·) (ih _)

theorem answersLength (sim : Simulator) (requests : List Request) : (sim.answers requests).length = requests.length := by
  induction requests generalizing sim with
  | nil => rfl
  | cons first rest ih => exact congrArg (· + 1) (ih _)

theorem lastStagedSnoc (sim : Simulator) (requests : List Request) (request : Request) (name : String) :
    sim.lastStaged (requests ++ [request]) name =
      (request.staged? name ((sim.asked requests).ask request).1).getD (sim.lastStaged requests name) := by
  rw [lastStaged, answersSnoc, List.zip_append (sim.answersLength requests).symm, List.zip_cons_cons, List.zip_nil_left,
    List.reverse_concat, List.findSome?_cons]
  cases request.staged? name ((sim.asked requests).ask request).1 with
  | none => rfl
  | some v => rfl

section Steps

variable {sim next : Simulator}

theorem invokedOk {name : String} {buffers : List Bytes} {rest : Memory → Simulator}
    (ran : (do sim.checkBuffers; return rest (← sim.invoke name buffers)) = Except.ok next) :
    ∃ memory, next = rest memory := by
  obtain ⟨-, -, ran⟩ := Result.okBind ran
  obtain ⟨memory, -, done⟩ := Result.okBind ran
  exact ⟨memory, (Except.ok.inj done).symm⟩

theorem computeInputs (ran : sim.compute = .ok next) : next.inputs = sim.inputs := by
  obtain ⟨memory, rfl⟩ := invokedOk ran
  rfl

theorem updateInputs (ran : sim.update = .ok next) : next.inputs = sim.inputs := by
  obtain ⟨memory, rfl⟩ := invokedOk ran
  rfl

theorem callInputs {call : Call} (kept : ∀ next, sim.attempt call = .ok next → next.inputs = sim.inputs) :
    (sim.call call).inputs = sim.inputs := by
  rw [Simulator.call]
  cases tried : sim.attempt call with
  | error => rfl
  | ok next => exact kept next tried

theorem captureCases {taps taps' : Taps} (ran : sim.capture taps = .ok (taps', next)) : next = sim ∨ ∃ state data,
    next = { sim with state := state, taps := some { taps with region := { taps.region with data := data } } } := by
  unfold capture at ran
  split at ran
  · cases ran
    exact .inl rfl
  · obtain ⟨memory, -, done⟩ := Result.okBind ran
    cases done
    exact .inr ⟨_, _, rfl⟩

end Steps

theorem getCases (sim : Simulator) (path : List String) (pin : String) : (sim.ask (.get path pin)).2 = sim ∨
    ∃ taps taps', sim.taps = some taps ∧ sim.capture taps = .ok (taps', (sim.ask (.get path pin)).2) := by
  cases looked : sim.getValue path pin with
  | error fault =>
    simp only [ask, looked]
    exact .inl trivial
  | ok read =>
    simp only [ask, looked]
    obtain ⟨-, -, looked⟩ := Result.okBind looked
    split at looked
    · cases looked
    · rename_i taps held
      split at looked
      · cases looked
      · obtain ⟨-, -, looked⟩ := Result.okBind looked
        obtain ⟨⟨taps', next⟩, captured, looked⟩ := Result.okBind looked
        obtain ⟨value, -, done⟩ := Result.okBind looked
        cases done
        exact .inr ⟨taps, taps', held, captured⟩

theorem getInputs (sim : Simulator) (path : List String) (pin : String) :
    (sim.ask (.get path pin)).2.inputs = sim.inputs := by
  rcases sim.getCases path pin with same | ⟨taps, taps', -, captured⟩
  · rw [same]
  · rcases captureCases captured with same | ⟨state, data, filled⟩
    · rw [same]
    · rw [filled]

section Run

variable {sim : Simulator} {ports : List Port} {staged : String → Nat} (narrow : ∀ port ∈ ports, port.width ≤ 128)
include narrow

theorem askStage (offers : sim.inputs.Offers ports staged) {request : Request} (name : String) (payload : Record.Payload)
    (asks : sim.ask request = ((Result.outcome (sim.stage name payload)).map fun _ => none,
      (sim.stage name payload).toOption.getD sim))
    (value : ∀ other, request.staged? other (.ok none) = if name = other then some payload.toNat else none)
    (nothing : ∀ other fault, request.staged? other (.error fault) = none) : (sim.ask request).2.inputs.Offers ports
      fun other => (request.staged? other (sim.ask request).1).getD (staged other) := by
  rw [asks]
  cases ok : sim.stage name payload with
  | error fault =>
    have kept : (fun other => (request.staged? other (.error fault)).getD (staged other)) = staged :=
      funext fun other => by rw [nothing, Option.getD_none]
    show sim.inputs.Offers ports fun other => (request.staged? other (.error fault)).getD (staged other)
    rw [kept]
    exact offers
  | ok next =>
    have given : (fun other => (request.staged? other (.ok none)).getD (staged other)) =
        fun other => if other = name then payload.toNat else staged other := by
      funext other
      rw [value]
      by_cases own : name = other
      · rw [if_pos own, if_pos own.symm, Option.getD_some]
      · rw [if_neg own, if_neg (Ne.symm own), Option.getD_none]
    show next.inputs.Offers ports fun other => (request.staged? other (.ok none)).getD (staged other)
    rw [given]
    exact stageOffers offers narrow ok

theorem askOffers (offers : sim.inputs.Offers ports staged) (request : Request) :
    (sim.ask request).2.inputs.Offers ports fun name => (request.staged? name (sim.ask request).1).getD (staged name) := by
  have quiet {request : Request} (silent : ∀ name, request.staged? name (sim.ask request).1 = none)
      (kept : (sim.ask request).2.inputs = sim.inputs) : (sim.ask request).2.inputs.Offers ports
        fun name => (request.staged? name (sim.ask request).1).getD (staged name) := by
    simp only [silent, kept, Option.getD_none]
    exact offers
  cases request with
  | get path pin => exact quiet (fun _ => rfl) (sim.getInputs path pin)
  | call call =>
    cases call with
    | compute => exact quiet (fun _ => rfl) (callInputs fun _ => computeInputs)
    | update => exact quiet (fun _ => rfl) (callInputs fun _ => updateInputs)
    | set name v =>
      refine askStage narrow offers name (.number v) ?_ (fun _ => rfl) fun _ _ => rfl
      simp only [ask, Simulator.call, Simulator.attempt, setInputStage]
      cases sim.stage name (.number v) <;> rfl
    | setWord name v =>
      refine askStage narrow offers name (.word v) ?_ (fun _ => rfl) fun _ _ => rfl
      simp only [ask, Simulator.call, Simulator.attempt, setInputWordStage]
      cases sim.stage name (.word v) <;> rfl

theorem askedOffers (offers : sim.inputs.Offers ports fun _ => 0) (requests : List Request) :
    (sim.asked requests).inputs.Offers ports (sim.lastStaged requests) := by
  induction requests using List.reverseRecOn with
  | nil => exact offers
  | append_singleton requests request ih =>
    have last : sim.lastStaged (requests ++ [request]) = fun name =>
        (request.staged? name ((sim.asked requests).ask request).1).getD (sim.lastStaged requests name) :=
      funext (sim.lastStagedSnoc requests request)
    rw [last, asked, List.foldl_concat]
    exact askOffers narrow ih request

end Run

theorem ofCircuitOffers {platform : Platform} {circuit : Circuit} {library : Library} {settings : Settings} {top : Nat}
    (built : ofCircuit platform circuit library settings top = .ok sim) :
    sim.inputs.Offers (circuit.definition top).inputs (fun _ => 0) ∧
      ∀ port ∈ (circuit.definition top).inputs, port.width ≤ 128 := by
  obtain ⟨-, reachable, made, m, handle, engine, -, ran, -, rfl⟩ := ofCircuitPlan built
  obtain ⟨-, planned⟩ := planRuns ran
  obtain ⟨design, of, flat⟩ := Circuit.flattenOf planned.graph
  obtain ⟨narrow, -⟩ := flat.portsNarrow of
  have ports : made.graph.inputs = (circuit.definition top).inputs := by
    rw [flat.inputs, of.interface]
    rfl
  have zero : (fun i : Nat => ((circuit.definition top).inputs[i]?.map fun _ => 0).getD 0) = fun _ => 0 := by
    funext i
    cases (circuit.definition top).inputs[i]? <;> rfl
  rw [← ports] at zero ⊢
  refine ⟨⟨?_, fun port _ => Nat.two_pow_pos _⟩, fun port mem => (narrow port mem).2⟩
  rw [zero]
  exact Record.freshMaps planned.inputs

/-- In every simulator that can be reached, a value is staged exactly if it fits an input port of the name, by both
ways of staging it, and they write the same bits. A refusal names the port, or its width and the length of the value,
and changes nothing. What is staged changes the bits of its port only, so all other numbers stay, for host code and for
the code that takes the inputs from their record, and so does all else in the simulator. Each port thus holds the value
that was accepted for it last, or zero. -/
theorem inputsStage (platform : Platform) (circuit : Circuit) (library : Library) (settings : Settings) (top : Nat)
    (sim : Simulator) (built : ofCircuit platform circuit library settings top = .ok sim) (requests : List Request) :
    let now := sim.asked requests
    let ports := (circuit.definition top).inputs
    (∀ name v, now.Stages ports name v (now.setInput name v)) ∧
    (∀ name (v : UInt64), now.Stages ports name v.toNat (now.setInputWord name v.toNat)) ∧
    (∀ name (v : UInt64), now.setInputWord name v.toNat = now.setInput name v.toNat) ∧
    (∀ request fault, (now.ask request).1 = .error fault → (now.ask request).2 = now) ∧
    (∀ v bits, Width.bitLength v ≤ bits ↔ v < 2 ^ bits) ∧
    ∀ port ∈ ports, now.inputs.get (.name port.name) = .ok (sim.lastStaged requests port.name) := by
  intro now ports
  obtain ⟨fresh, narrow⟩ := ofCircuitOffers built
  have offers : now.inputs.Offers ports (sim.lastStaged requests) := askedOffers narrow fresh requests
  exact ⟨fun name v => stageStages offers narrow name (.number v), fun name v => stageStages offers narrow name (.word v),
    fun name v => stageWord offers name v, fun _ _ => askRefused, fun v bits => Width.bitLengthLe,
    fun port mem => offers.getPort mem⟩

def wires : Circuit := ⟨[
  { name := "wires"
    inputs := [⟨"flag", 1⟩, ⟨"wide", 100⟩]
    outputs := [⟨"raised", 1⟩, ⟨"copy", 100⟩]
    instances := []
    nets := [⟨.own "flag", [.own "raised"]⟩, ⟨.own "wide", [.own "copy"]⟩] }], none⟩

theorem wiresStage : ∃ sim, ofCircuit default wires .builtin { layout := .bitPacked } 0 = .ok sim ∧
    let now := sim.asked [.call (.set "wide" (2 ^ 99 + 5)), .call (.setWord "flag" 1), .call (.set "flag" 2),
      .call (.setWord "wide" 7), .call (.set "none" 1)]
    now.inputs.get (.name "flag") = .ok 1 ∧ now.inputs.get (.name "wide") = .ok 7 ∧
      now.setInput "flag" 2 = .error (.valueWidth "flag" 1 2) ∧ now.setInput "none" 1 = .error (.unknownInput "none") := by
  let requests : List Request := [.call (.set "wide" (2 ^ 99 + 5)), .call (.setWord "flag" 1), .call (.set "flag" 2),
    .call (.setWord "wide" 7), .call (.set "none" 1)]
  obtain ⟨sim, built, checked⟩ := Result.okAny (show (ofCircuit default wires .builtin { layout := .bitPacked } 0).toOption.any
    (fun sim => decide (sim.lastStaged requests "flag" = 1 ∧ sim.lastStaged requests "wide" = 7)) = true by decide +kernel)
  obtain ⟨flag, wide⟩ := of_decide_eq_true checked
  obtain ⟨sets, -, -, -, -, held⟩ := inputsStage default wires .builtin _ 0 sim built requests
  have first := held ⟨"flag", 1⟩ (by decide)
  have second := held ⟨"wide", 100⟩ (by decide)
  rw [flag] at first
  rw [wide] at second
  exact ⟨sim, built, first, second, (sets "flag" 2).wide ⟨"flag", 1⟩ (by decide) rfl (by decide),
    (sets "none" 1).unknown.mpr (by decide)⟩

end Simulator

end CircuitSim
