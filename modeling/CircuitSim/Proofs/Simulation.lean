import CircuitSim.Proofs.Assignment
import CircuitSim.Proofs.Serving

/-! A simulator follows the machine that its hierarchy stands for, call after call: its records hold the numbers
that are staged and shown, and its buffer holds the words of state. Main statement: `simulatorRefines`. -/
namespace CircuitSim

theorem Width.bitLengthLe {n width : Nat} : Width.bitLength n ≤ width ↔ n < 2 ^ width := by
  rcases Nat.eq_zero_or_pos n with rfl | positive
  · exact iff_of_true (Nat.zero_le width) (Nat.two_pow_pos width)
  · rw [Width.bitLength, if_neg positive.ne', Nat.succ_le_iff]
    exact Nat.log2_lt positive.ne'

theorem Node.Stored.next {node : Node} {inputs values : Nat → Nat} {old new : Bytes}
    (stored : node.Stored inputs values old new)
    (fits : node.primitive.Fits (node.operand inputs values) node.primitive.pins) {k : Nat}
    (known : k < node.primitive.cells) :
    node.words new k = node.primitive.next (node.operand inputs values) (node.words old) k := by
  unfold Node.Stored at stored
  unfold Node.words
  cases kind : node.primitive with
  | register width =>
    rw [kind] at stored fits known
    obtain rfl : k = 0 := Nat.lt_one_iff.mp known
    have whole : width ≤ 8 * Width.bytes width := Emit.bytesLe.mp (Nat.le_refl _)
    have small : node.operand inputs values 0 < 2 ^ width :=
      fits 0 (by simp [Primitive.pins, Primitive.inputs]) ("in", width) rfl
    have low := @Bytes.fieldLow new (8 * node.stateOffset) _ width whole
    simp only at stored
    rw [stored, Nat.mod_eq_of_lt small] at low
    rw [Primitive.word, Nat.zero_mul, Nat.add_zero]
    exact low.symm
  | mem width depth =>
    rw [kind] at stored known
    exact stored k known
  | const | binary | not | compare | mux =>
    rw [kind] at known
    cases known

theorem Primitive.nextCongr {primitive : Primitive} {input input' word word' : Nat → Nat} {k : Nat}
    (same : ∀ j < primitive.inputs.length, input j = input' j) (same' : word k = word' k) :
    primitive.next input word k = primitive.next input' word' k := by
  cases primitive with
  | register width => exact same 0 (by simp [inputs])
  | mem width depth =>
    simp only [next, same 0 (by simp [inputs]), same 1 (by simp [inputs]), same 2 (by simp [inputs]), same']
  | const | binary | not | compare | mux => exact same'

theorem Record.getNamed {record : Record} {other : Member} (listed : other ∈ record.layout.members) :
    ∃ member ∈ record.layout.members, member.name = other.name ∧
      record.get (.name other.name) = .ok (record.value member) := by
  obtain ⟨index, found⟩ := Layout.positionFound listed
  obtain ⟨member, known, same⟩ := Layout.positionAt found
  have key : record.member (.name other.name) = .ok member := by
    simp only [Record.member, Record.member?, Record.position?, found, Option.bind_some, known]
  refine ⟨member, List.mem_of_getElem? known, same, ?_⟩
  rw [Record.get, key]
  rfl

theorem Simulator.Serves.numbersStaged {sim : Simulator} {graph : Graph} (serves : sim.Serves graph)
    {staged : String → Nat}
    (same : ∀ member ∈ sim.inputs.layout.members, sim.inputs.value member = staged member.name) :
    (fun k => sim.inputs.numbers.getD k 0) = graph.inputPins staged := by
  funext k
  rw [Graph.inputPins, ← serves.inputPorts, Record.numbers, List.getD_eq_getElem?_getD, List.getElem?_map,
    List.getElem?_map]
  cases here : sim.inputs.layout.members[k]? with
  | none => rfl
  | some member => exact same member (List.mem_of_getElem? here)

namespace Simulator

def attempt (sim : Simulator) : Call → Except Fault Simulator
  | .set name value => sim.setInput name value
  | .setWord name value => sim.setInputWord name value.toNat
  | .compute => sim.compute
  | .update => sim.update

def call (sim : Simulator) (request : Call) : Simulator :=
  match sim.attempt request with
  | .ok next => next
  | .error _ => sim

def after (sim : Simulator) (calls : List Call) : Simulator := calls.foldl call sim

/- Between two calls, a simulator stands for a state of the machine. -/
structure Follows (sim : Simulator) (graph : Graph) (machine : Machine) : Prop where
  serves : sim.Serves graph
  inputs : sim.inputs.data.size = sim.inputs.layout.size
  outputs : sim.outputs.data.size = sim.outputs.layout.size
  state : sim.state.size = graph.stateBytes + 16
  staged : ∀ member ∈ sim.inputs.layout.members, sim.inputs.value member = machine.staged member.name
  shown : ∀ member ∈ sim.outputs.layout.members, sim.outputs.value member = machine.shown member.name
  words : ∀ node ∈ graph.nodes, ∀ k < node.primitive.cells, node.words sim.state k = machine.words node.path k

section Staging

variable {sim : Simulator} {graph : Graph} {machine : Machine} (follows : sim.Follows graph machine)
  (distinct : (graph.inputs.map (·.name)).Nodup) {name : String} {value : Nat}
include follows distinct

theorem membersNamed : (sim.inputs.layout.members.map (·.name)).Nodup := by
  have same := congrArg (List.map fun port : Port => port.name) follows.serves.inputPorts
  rw [List.map_map] at same
  rw [← same] at distinct
  exact distinct

theorem checkStages (name : String) (value : Nat) :
    (∃ index member, sim.inputs.layout.members[index]? = some member ∧ member.name = name ∧
      value < 2 ^ member.width ∧ sim.checkInput name (Width.bitLength value) = .ok index) ∨
    ((∃ fault, sim.checkInput name (Width.bitLength value) = .error fault) ∧
      machine.stage graph.inputs name value = machine) := by
  have listed : ∀ port ∈ graph.inputs,
      ∃ member ∈ sim.inputs.layout.members, Port.mk member.name member.width = port := by
    intro port mem
    rw [← follows.serves.inputPorts] at mem
    exact List.mem_map.mp mem
  cases found : sim.inputs.layout.position? name with
  | none =>
    have missing : sim.checkInput name (Width.bitLength value) = .error (.unknownInput name) := by
      rw [checkInput, found]
    refine .inr ⟨⟨_, missing⟩, if_neg ?_⟩
    rintro ⟨port, mem, rfl, -⟩
    obtain ⟨member, known, rfl⟩ := listed port mem
    obtain ⟨index, found'⟩ := Layout.positionFound known
    exact nomatch found.symm.trans found'
  | some index =>
    obtain ⟨member, known, own⟩ := Layout.positionAt found
    have checked : sim.checkInput name (Width.bitLength value) =
        if member.width < Width.bitLength value then .error (.valueWidth name member.width (Width.bitLength value))
        else .ok index := by
      rw [checkInput, found]
      simp only [List.getD_eq_getElem?_getD, known, Option.getD_some]
    by_cases fits : value < 2 ^ member.width
    · refine .inl ⟨index, member, known, own, fits, ?_⟩
      rw [checked, if_neg (Nat.not_lt_of_le (Width.bitLengthLe.mpr fits))]
    · have wide : member.width < Width.bitLength value := Nat.lt_of_not_le fun le => fits (Width.bitLengthLe.mp le)
      refine .inr ⟨⟨_, by rw [checked, if_pos wide]⟩, if_neg ?_⟩
      rintro ⟨port, mem, same, small⟩
      obtain ⟨other, known', rfl⟩ := listed port mem
      have equal : other.name = member.name := same.trans own.symm
      obtain rfl := List.inj_on_of_nodup_map (membersNamed follows distinct) known' (List.mem_of_getElem? known) equal
      exact fits small

theorem stageFollows {index : Nat} {member : Member} (known : sim.inputs.layout.members[index]? = some member)
    (fits : value < 2 ^ member.width) :
    Follows { sim with inputs := ⟨sim.inputs.layout, sim.inputs.data.put member.offset member.width value⟩ } graph
      (machine.stage graph.inputs member.name value) := by
  have mem := List.mem_of_getElem? known
  have listed : Port.mk member.name member.width ∈ graph.inputs := by
    rw [← follows.serves.inputPorts]
    exact List.mem_map.mpr ⟨member, mem, rfl⟩
  have accepted : machine.stage graph.inputs member.name value = { machine with
      staged := fun other => if other = member.name then value else machine.staged other } :=
    if_pos ⟨_, listed, rfl, fits⟩
  have placed := follows.serves.inputs.placed
  have room := sim.inputs.layout.rules.leRoom member.width
  have staged : ∀ other ∈ sim.inputs.layout.members,
      (Record.mk sim.inputs.layout (sim.inputs.data.put member.offset member.width value)).value other =
        if other.name = member.name then value else machine.staged other.name := by
    intro other mem'
    obtain ⟨j, known'⟩ := List.mem_iff_getElem?.mp mem'
    by_cases own : j = index
    · subst own
      obtain rfl := Option.some.inj (known.symm.trans known')
      rw [if_pos rfl]
      exact Record.putOwn placed mem follows.inputs (Nat.le_refl _) room fits
    · have other' : other.name ≠ member.name := fun same =>
        own (Result.indexInj (membersNamed follows distinct) known' known same)
      rw [if_neg other', ← follows.staged other mem']
      exact Record.putOther placed mem follows.inputs room known known' own
  rw [accepted]
  exact ⟨{ follows.serves with }, (Bytes.putSize _ _ _ _).trans follows.inputs, follows.outputs, follows.state,
    staged, follows.shown, follows.words⟩

theorem setFollows (name : String) (value : Nat) :
    (sim.call (.set name value)).Follows graph (machine.stage graph.inputs name value) := by
  rcases checkStages follows distinct name value with
    ⟨index, member, known, rfl, fits, checked⟩ | ⟨⟨fault, refused⟩, same⟩
  · have put : sim.inputs.set (.position index) value = .ok _ :=
      Record.setPut follows.serves.inputs.placed follows.inputs (List.mem_of_getElem? known) known value
    simp only [call, attempt, setInput, checked, put, bind, Except.bind, pure, Except.pure]
    exact stageFollows follows distinct known fits
  · simp only [call, attempt, setInput, refused, bind, Except.bind]
    rw [same]
    exact follows

theorem setWordFollows (name : String) (value : UInt64) :
    (sim.call (.setWord name value)).Follows graph (machine.stage graph.inputs name value.toNat) := by
  rcases checkStages follows distinct name value.toNat with
    ⟨index, member, known, rfl, fits, checked⟩ | ⟨⟨fault, refused⟩, same⟩
  · have put : sim.inputs.setWord (.position index) value.toNat = .ok _ :=
      Record.setWordPut follows.serves.inputs.placed follows.inputs (List.mem_of_getElem? known) known value.toNat_lt
    simp only [call, attempt, setInputWord, checked, put, bind, Except.bind, pure, Except.pure]
    exact stageFollows follows distinct known fits
  · simp only [call, attempt, setInputWord, refused, bind, Except.bind]
    rw [same]
    exact follows

end Staging

section Running

variable {sim : Simulator} {graph : Graph} {machine : Machine} (follows : sim.Follows graph machine) {circuit : Circuit}
  {root : Nat} {design : Design} (of : design.Of circuit .builtin root) (flat : design.Flat graph)

variable {pins : List String × String → Nat} (assigned : circuit.Assigned root machine.staged machine.words pins)
include follows of flat assigned

theorem followsSettled :
    graph.Settled (fun k => sim.inputs.numbers.getD k 0) (Node.words sim.state) (graph.nodePins pins) := by
  intro i node here
  have mem := List.mem_of_getElem? here
  rw [follows.serves.numbersStaged follows.staged, Design.Flat.pinsSettled of flat assigned i node here]
  exact Primitive.resultWords ((flat.wellFormed of).valid node mem) fun k known => (follows.words node mem k known).symm

theorem computeFollows : ∃ next, sim.compute = .ok next ∧
    next.Follows graph { machine with shown := fun name => pins ([], name) } := by
  have settled := followsSettled follows of flat assigned
  have wellFormed := flat.wellFormed of
  have result := follows.serves.computed follows.inputs follows.outputs follows.state wellFormed settled
  obtain ⟨next, ran, size, packed⟩ :=
    follows.serves.shows follows.inputs follows.outputs follows.state wellFormed settled
  have shown : ∀ member ∈ sim.outputs.layout.members, next.outputs.value member = pins ([], member.name) := by
    intro member mem
    obtain ⟨k, known⟩ := List.mem_iff_getElem?.mp mem
    obtain ⟨output, known', same⟩ := Result.forallAt follows.serves.outputMembers known
    have pin := Design.Flat.shownPins of flat assigned (Design.Flat.outputShows of flat (List.mem_of_getElem? known'))
    have names : member.name = output.1.name := congrArg Port.name same
    rw [packed k output member known' known, names, pin, ← follows.serves.numbersStaged follows.staged]
  cases ran.symm.trans result
  exact ⟨_, result, { follows.serves with }, follows.inputs, size, follows.state, follows.staged, shown, follows.words⟩

variable {words : List String → Nat → Nat} (advanced : circuit.Advanced root pins machine.words words)
include advanced

theorem updateFollows : ∃ next, sim.update = .ok next ∧ next.Follows graph { machine with words := words } := by
  have wellFormed := flat.wellFormed of
  have settled := followsSettled follows of flat assigned
  have admits := Graph.argsAdmit (follows.serves.numbersFit follows.inputs)
  have sized : graph.stateBytes < sim.state.size := by
    rw [follows.state]
    omega
  let given : Nat → Nat := fun k => sim.inputs.numbers.getD k 0
  let state := Graph.advance given (graph.nodePins pins) sim.state graph.nodes
  have result : sim.update = .ok { sim with state := state } :=
    follows.serves.updated follows.inputs follows.outputs follows.state wellFormed settled
  have next : ∀ node ∈ graph.nodes, ∀ k < node.primitive.cells, node.words state k = words node.path k := by
    intro node mem k known
    have stored := wellFormed.stored settled admits sized mem
    have fits := Graph.settledFits wellFormed (fun node _ => node.wordsLt sim.state) settled admits mem
      node.primitive.pins
    rw [advanced _ _ (of.nodePrimitive flat mem) k known, stored.next fits known]
    refine Primitive.nextCongr (fun j inside => ?_) (follows.words node mem k known)
    rw [Design.Flat.pinsOperand of flat assigned mem inside, ← follows.serves.numbersStaged follows.staged]
  exact ⟨_, result, { follows.serves with }, follows.inputs, follows.outputs, (Graph.advanceSize _ _ _ _).trans follows.state,
    follows.staged, follows.shown, next⟩

end Running

section Runs

variable {circuit : Circuit} {root : Nat} {design : Design} (of : design.Of circuit .builtin root) {graph : Graph}
  (flat : design.Flat graph) (named : circuit.Named)
include of flat named

theorem stepFollows {sim : Simulator} {machine machine' : Machine} {request : Call}
    (follows : sim.Follows graph machine) (step : circuit.Steps root machine request machine') :
    (sim.call request).Follows graph machine' := by
  have ports : (circuit.definition root).inputs = graph.inputs := by
    rw [flat.inputs, of.interface]
    rfl
  have distinct := flat.inputsNamed of named
  cases step with
  | set name value => exact ports ▸ setFollows follows distinct name value
  | setWord name value => exact ports ▸ setWordFollows follows distinct name value
  | compute assigned =>
    obtain ⟨next, ran, follows'⟩ := computeFollows follows of flat assigned
    rw [call, attempt, ran]
    exact follows'
  | update assigned advanced =>
    obtain ⟨next, ran, follows'⟩ := updateFollows follows of flat assigned advanced
    rw [call, attempt, ran]
    exact follows'

theorem runFollows {sim : Simulator} {machine machine' : Machine} {calls : List Call}
    (follows : sim.Follows graph machine) (run : circuit.Reaches root machine calls machine') :
    (sim.after calls).Follows graph machine' := by
  induction run generalizing sim with
  | nil => exact follows
  | cons step _ ih => exact ih (stepFollows of flat named follows step)

theorem stepExists (machine : Machine) (request : Call) : ∃ machine', circuit.Steps root machine request machine' := by
  classical
  obtain ⟨pins, assigned⟩ := Design.Flat.pinsExist of flat named machine.staged machine.words
  cases request with
  | set name value => exact ⟨_, .set name value⟩
  | setWord name value => exact ⟨_, .setWord name value⟩
  | compute => exact ⟨_, .compute assigned⟩
  | update =>
    let words path k := if here : ∃ primitive, circuit.PrimitiveAt root path primitive
      then here.choose.next (here.choose.taken pins path) (machine.words path) k else 0
    refine ⟨_, @Circuit.Steps.update circuit root machine pins words assigned fun path primitive within k _ => ?_⟩
    have here : ∃ primitive, circuit.PrimitiveAt root path primitive := ⟨primitive, within⟩
    have chosen : words path k = here.choose.next (here.choose.taken pins path) (machine.words path) k := dif_pos here
    rw [chosen, of.primitiveSame named here.choose_spec within]

theorem callsSucceed {sim : Simulator} {machine : Machine} (follows : sim.Follows graph machine) :
    (∃ next, sim.compute = .ok next) ∧ ∃ next, sim.update = .ok next := by
  obtain ⟨_, computes⟩ := stepExists of flat named machine .compute
  obtain ⟨_, updates⟩ := stepExists of flat named machine .update
  cases computes with
  | compute shown =>
    cases updates with
    | update assigned advanced =>
      obtain ⟨next, ran, -⟩ := computeFollows follows of flat shown
      obtain ⟨next', ran', -⟩ := updateFollows follows of flat assigned advanced
      exact ⟨⟨next, ran⟩, next', ran'⟩

theorem runExists (machine : Machine) (calls : List Call) : ∃ machine', circuit.Reaches root machine calls machine' := by
  induction calls generalizing machine with
  | nil => exact ⟨machine, .nil machine⟩
  | cons request rest ih =>
    obtain ⟨next, step⟩ := stepExists of flat named machine request
    obtain ⟨last, run⟩ := ih next
    exact ⟨last, .cons step run⟩

omit of flat named in
theorem freshFollows {sim : Simulator} {settings : Settings} (fresh : Fresh circuit .builtin settings root sim graph) :
    sim.Follows graph Machine.start := by
  refine ⟨fresh.serves, ?_, ?_, ?_, Record.valueZero fresh.serves.inputs.placed fresh.inputs,
    Record.valueZero fresh.serves.outputs.placed fresh.outputs, fun node _ k _ => ?_⟩
  · rw [fresh.inputs, Bytes.zerosSize]
  · rw [fresh.outputs, Bytes.zerosSize]
  · rw [fresh.state, Bytes.zerosSize]
  · rw [Node.words, Primitive.word, fresh.state, Bytes.zerosField]
    rfl

omit named in
theorem outputShown {sim : Simulator} {machine : Machine} (follows : sim.Follows graph machine) :
    ∀ port ∈ (circuit.definition root).outputs, sim.outputs.get (.name port.name) = .ok (machine.shown port.name) := by
  intro port mem
  have own : port ∈ graph.outputs.map (·.1) := by
    have mem : port ∈ design.interface.outputs := by
      rw [of.interface]
      exact mem
    obtain ⟨k, here⟩ := List.mem_iff_getElem?.mp mem
    obtain ⟨output, found, same⟩ := flat.outputAt here
    exact List.mem_map.mpr ⟨output, List.mem_of_getElem? found, same⟩
  rw [← follows.serves.outputPorts] at own
  obtain ⟨other, listed, rfl⟩ := List.mem_map.mp own
  obtain ⟨member, known, same, read⟩ := Record.getNamed listed
  rw [read, ← same, follows.shown member known]

end Runs

/-- Whatever is asked of a simulator, its outputs are those of the machine that the hierarchy stands for, and the next
compute or update succeeds. The machine can answer every call, and in each of its states the pins have one assignment of
numbers. -/
theorem simulatorRefines (platform : Platform) (circuit : Circuit) (settings : Settings) (top : Nat) (sim : Simulator)
    (built : ofCircuit platform circuit .builtin settings top = .ok sim) (small : sim.inputs.layout.size < 2 ^ 31)
    (small' : sim.outputs.layout.size < 2 ^ 31) (calls : List Call) :
    (∃ machine, circuit.Reaches top .start calls machine) ∧
    ((∃ next, (sim.after calls).compute = .ok next) ∧ ∃ next, (sim.after calls).update = .ok next) ∧
    ∀ machine, circuit.Reaches top .start calls machine →
      (∃ pins, circuit.Assigned top machine.staged machine.words pins ∧
        ∀ pins', circuit.Assigned top machine.staged machine.words pins' →
          ∀ pin, circuit.PinAt top pin → pins' pin = pins pin) ∧
      ∀ port ∈ (circuit.definition top).outputs,
        (sim.after calls).outputs.get (.name port.name) = .ok (machine.shown port.name) := by
  obtain ⟨graph, fresh⟩ := ofCircuitFresh built small small'
  obtain ⟨design, of, flat⟩ := Circuit.flattenOf fresh.flat
  have named := Circuit.validateNamed fresh.checked
  have follows {machine : Machine} (run : circuit.Reaches top .start calls machine) :
      (sim.after calls).Follows graph machine := runFollows of flat named (freshFollows fresh) run
  obtain ⟨machine, run⟩ := runExists of flat named .start calls
  refine ⟨⟨machine, run⟩, callsSucceed of flat named (follows run), fun machine run => ⟨?_, ?_⟩⟩
  · obtain ⟨pins, assigned⟩ := Design.Flat.pinsExist of flat named machine.staged machine.words
    exact ⟨pins, assigned, fun pins' assigned' pin known =>
      Design.Flat.pinsUnique of flat fresh.children assigned assigned' known⟩
  · exact outputShown of flat (follows run)

def counters : Circuit := ⟨[
  { name := "counter"
    inputs := [⟨"step", 4⟩]
    outputs := [⟨"count", 4⟩]
    instances := [⟨"add", .primitive "add" [("width", 4)]⟩, ⟨"held", .primitive "register" [("width", 4)]⟩]
    nets := [⟨.own "step", [.of "add" "lhs"]⟩, ⟨.of "held" "out", [.of "add" "rhs", .own "count"]⟩,
      ⟨.of "add" "sum", [.of "held" "in"]⟩] },
  { name := "counters"
    inputs := [⟨"step", 4⟩]
    outputs := [⟨"total", 4⟩]
    instances := [⟨"first", .definition "counter"⟩, ⟨"second", .definition "counter"⟩]
    nets := [⟨.own "step", [.of "first" "step"]⟩, ⟨.of "first" "count", [.of "second" "step"]⟩,
      ⟨.of "second" "count", [.own "total"]⟩] }], none⟩

theorem countersRefined : ∃ sim, ofCircuit default counters .builtin {} 1 = .ok sim ∧ ∃ machine, counters.Reaches 1 .start
    [.setWord "step" 3, .set "step" 16, .update, .update, .compute] machine ∧ machine.shown "total" = 3 := by
  have evaluated : (ofCircuit default counters .builtin {} 1).toOption.any (fun sim =>
      decide (sim.inputs.layout.size < 2 ^ 31) && decide (sim.outputs.layout.size < 2 ^ 31) &&
        decide (((sim.after [.setWord "step" 3, .set "step" 16, .update, .update, .compute]).outputs.get
          (.name "total")).toOption = some 3)) = true := by
    decide +kernel
  cases built : ofCircuit default counters .builtin {} 1 with
  | error fault =>
    rw [built] at evaluated
    exact nomatch evaluated
  | ok sim =>
    rw [built] at evaluated
    obtain ⟨fit, read⟩ := Bool.and_eq_true_iff.mp evaluated
    obtain ⟨small, small'⟩ := Bool.and_eq_true_iff.mp fit
    obtain ⟨⟨machine, run⟩, -, refined⟩ := simulatorRefines default counters {} 1 sim built (of_decide_eq_true small)
      (of_decide_eq_true small') _
    obtain ⟨-, shown⟩ := refined machine run
    have total := of_decide_eq_true read
    rw [shown ⟨"total", 4⟩ (by decide)] at total
    exact ⟨sim, rfl, machine, run, Option.some.inj total⟩

end Simulator

end CircuitSim
