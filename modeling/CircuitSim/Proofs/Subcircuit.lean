import CircuitSim.Proofs.Instance

/-! Inlining keeps meaning: inside an instance everything is as in the definition on its own, on the inputs that the
instance is given and on its part of the state. -/
namespace CircuitSim

def Bytes.Carved (data slice : Bytes) (base count : Nat) : Prop :=
  ∀ i < 8 * count, data.bit (8 * base + i) = slice.bit i

theorem Bytes.carvedBytes {data slice : Bytes} {base count : Nat} :
    data.Carved slice base count ↔ ∀ i < count, data.byte (base + i) = slice.byte i := by
  have place : ∀ i, (8 * base + i) / 8 = base + i / 8 ∧ (8 * base + i) % 8 = i % 8 := by omega
  constructor
  · intro carved i inside
    apply UInt8.toNat_inj.mp
    apply Nat.eq_of_testBit_eq
    intro j
    rw [byteTestBit, byteTestBit]
    by_cases h : j < 8
    · have bits := carved (8 * i + j) (by omega)
      rw [← Nat.add_assoc, ← Nat.mul_add] at bits
      rw [bits]
    · simp [h]
  · intro same i inside
    obtain ⟨quotient, rest⟩ := place i
    rw [bit, bit, quotient, rest, same (i / 8) (by omega)]

namespace Primitive

variable {primitive : Primitive} (valid : primitive.Valid) {data slice : Bytes} {base count offset : Nat}
  (inside : offset + primitive.stateBytes ≤ count) (carved : data.Carved slice base count)
include valid inside carved

theorem wordCarved {k : Nat} (known : k < primitive.cells) :
    primitive.word data (base + offset) k = primitive.word slice offset k := by
  have bound := wordInside valid known
  apply Bytes.fieldCongr
  intro i hi
  have index : 8 * (base + offset) + k * primitive.width + i = 8 * base + (8 * offset + k * primitive.width + i) := by
    omega
  rw [index]
  exact carved _ (by omega)

theorem advanceCarved {input input' : Nat → Nat} (same : ∀ k < primitive.inputs.length, input k = input' k)
    (room : base + count ≤ data.size) (room' : count ≤ slice.size) :
    (primitive.advance data (base + offset) input).Carved (primitive.advance slice offset input') base count := by
  have moved : primitive.change (base + offset) input =
      (primitive.change offset input').map fun c => { c with start := 8 * base + c.start } := by
    cases primitive with
    | register width =>
      simp only [change, Option.map_some, same 0 (by simp [inputs]), Nat.mul_add]
    | mem width depth =>
      simp only [change, same 0 (by simp [inputs]), same 1 (by simp [inputs]), same 2 (by simp [inputs])]
      split
      · simp only [Option.map_some, Nat.mul_add, Nat.add_assoc]
      · rfl
    | const | binary | not | compare | mux => rfl
  intro i hi
  unfold advance
  rw [moved]
  cases changes : primitive.change offset input' with
  | none => exact carved i hi
  | some c =>
    have bounds := changeInside valid changes
    have index : 8 * base + i - (8 * base + c.start) = i - c.start := by omega
    have covers : (8 * base + c.start ≤ 8 * base + i ∧ 8 * base + i < 8 * base + c.start + c.count) ↔
        (c.start ≤ i ∧ i < c.start + c.count) := by omega
    simp only [Option.map_some]
    rw [Bytes.putBitWithin (by omega), Bytes.putBitWithin (by omega), carved i hi, index]
    simp only [covers]

end Primitive

namespace Graph

theorem WellFormed.advanceBit {graph : Graph} (wellFormed : graph.WellFormed) {inputs values : Nat → Nat}
    {data : Bytes} (sized : graph.stateBytes < data.size) {node : Node} (mem : node ∈ graph.nodes) {i : Nat}
    (first : 8 * node.stateOffset ≤ i) (last : i < 8 * (node.stateOffset + node.primitive.stateBytes)) :
    (advance inputs values data graph.nodes).bit i =
      (node.primitive.advance data node.stateOffset (node.operand inputs values)).bit i := by
  have field := @advanceOwn inputs values graph.nodes wellFormed.valid wellFormed.apart data (wellFormed.inside sized)
    node mem i 1 first (by omega)
  have bits : ((advance inputs values data graph.nodes).field i 1).testBit 0 =
      ((node.primitive.advance data node.stateOffset (node.operand inputs values)).field i 1).testBit 0 := by
    rw [field]
  rw [Bytes.fieldTestBit, Bytes.fieldTestBit] at bits
  simpa using bits

end Graph

namespace Design.Holds

variable {circuit : Circuit} {root id : Nat} {outer inner : Design} {place : Place} (holds : outer.Holds inner place)
  (of : outer.Of circuit .builtin root) (of' : inner.Of circuit .builtin id) (named : circuit.Named)
  {whole part : Graph} (flat : outer.Flat whole) (flat' : inner.Flat part)
  {inputs values given : Nat → Nat} {first base : Nat} (fed : outer.Fed inner place inputs values first given)
  (inlines : whole.Inlines part (outer.path place) first base)
  {data slice : Bytes} (carved : data.Carved slice base part.stateBytes)

section Slice

include of' flat' carved

theorem wordsInside {node whole' : Node} (mem : node ∈ part.nodes) (under : Node.Under (outer.path place) base node whole')
    {k : Nat} (known : k < node.primitive.cells) : whole'.words data k = node.words slice k := by
  have wellFormed := flat'.wellFormed of'
  rw [Node.words, under.primitive, under.offset]
  exact Primitive.wordCarved (wellFormed.valid node mem) (wellFormed.stacked.inside node mem).2 carved known

include holds of flat fed inlines

theorem advanceInside (sized : whole.stateBytes < data.size) (sized' : part.stateBytes < slice.size) :
    (Graph.advance inputs values data whole.nodes).Carved
      (Graph.advance given (fun j => values (first + j)) slice part.nodes) base part.stateBytes := by
  have wellFormed := flat.wellFormed of
  have wellFormed' := flat'.wellFormed of'
  intro i hi
  obtain ⟨node, mem, after, before⟩ := @Stacked.covers 0 part.stateBytes (i / 8) part.nodes wellFormed'.stacked
    (Nat.zero_le _) (Nat.div_lt_of_lt_mul hi)
  obtain ⟨j, here⟩ := List.mem_iff_getElem?.mp mem
  obtain ⟨whole', here', under⟩ := inlines.nodes j node here
  have state := inlines.state
  have inside := (wellFormed'.stacked.inside node mem).2
  have offset := under.offset
  have primitive := under.primitive
  rw [wellFormed.advanceBit sized (List.mem_of_getElem? here') (by omega) (by rw [primitive]; omega),
    wellFormed'.advanceBit sized' mem (by omega) (by omega), primitive, offset]
  refine Primitive.advanceCarved (wellFormed'.valid node mem) inside carved (fun k bound => ?_) (by omega) (by omega) i hi
  exact holds.operandInside of' flat flat' fed here here' bound

end Slice

end Design.Holds

namespace Design.Holds

variable {circuit : Circuit} {root id i : Nat} {place : Place} {outer inner : Design} (holds : outer.Holds inner (i :: place))
  (of : outer.Of circuit .builtin root) (of' : inner.Of circuit .builtin id) (named : circuit.Named) {whole part : Graph}
  (flat : outer.Flat whole) (flat' : inner.Flat part) {inputs values : Nat → Nat} {fed : List Nat}

section Given

variable {data : Bytes} (admits : whole.Admits inputs) (settled : whole.Settled inputs (Node.words data) values)
  (taken : fed = whole.fed (outer.path (i :: place)) part.inputs inputs values)
include holds of named flat flat' admits settled taken

theorem givenAt {k : Nat} {port : Port} (known : part.inputs[k]? = some port) : ∃ origin,
    outer.Makes (.input (i :: place) k) origin ∧ outer.valueAt inputs values origin = fed.getD k 0 ∧
      fed.getD k 0 < 2 ^ port.width := by
  have ports : part.inputs = inner.interface.inputs := flat'.inputs
  obtain ⟨origin, source, made, width, here, value⟩ :=
    @fedAt _ _ _ _ _ of _ flat i inputs values holds named k port (ports ▸ known)
  have given : fed.getD k 0 = source.value inputs values := by
    rw [List.getD_eq_getElem?_getD, taken, ports, here, Option.getD_some]
  refine ⟨origin, made, by rw [given, value], given ▸ ?_⟩
  exact Graph.sourceLt (flat.wellFormed of) (fun node _ => node.wordsLt data) settled admits width

theorem givenFits : List.Forall₂ (fun n (port : Port) => n < 2 ^ port.width) fed part.inputs := by
  have count : fed.length = part.inputs.length := by simp [taken, Graph.fed]
  refine List.forall₂_iff_get.mpr ⟨count, fun k inside inside' => ?_⟩
  obtain ⟨-, -, -, small⟩ := holds.givenAt of named flat flat' admits settled taken (List.getElem?_eq_getElem inside')
  rw [List.getD_eq_getElem?_getD, List.getElem?_eq_getElem inside, Option.getD_some] at small
  exact small

theorem givenShown {k : Nat} {port : Port} (known : part.inputs[k]? = some port) :
    circuit.Shows root whole inputs values (outer.path (i :: place), port.name) (fed.getD k 0) := by
  obtain ⟨origin, made, value, -⟩ := holds.givenAt of named flat flat' admits settled taken known
  rw [show part.inputs = inner.interface.inputs from flat'.inputs, ← holds.interface] at known
  exact value ▸ flat.makesShows of made (inputSlot known)

theorem givenFed {first : Nat} (index : ∀ under name primitive, inner.item? under = some (.primitive name primitive) →
    outer.leaves.findIdx (·.place = under ++ i :: place) = first + inner.leaves.findIdx (·.place = under)) :
    outer.Fed inner (i :: place) inputs values first fun k => fed.getD k 0 := by
  have ports : part.inputs = inner.interface.inputs := flat'.inputs
  refine ⟨fun k port known => ?_, fun k port origin known made => ?_, index⟩
  · obtain ⟨origin, made, -⟩ := holds.givenAt of named flat flat' admits settled taken (ports ▸ known)
    exact ⟨origin, made⟩
  · obtain ⟨origin', made', value, -⟩ := holds.givenAt of named flat flat' admits settled taken (ports ▸ known)
    rw [makesUnique made made', value]

end Given

section Correspondence

variable {first : Nat} (given : outer.Fed inner (i :: place) inputs values first fun k => fed.getD k 0)
include holds of of' named flat flat' given

theorem pinsCorrespond (below : List String) (pin : String) (n : Nat) :
    circuit.Shows root whole inputs values (outer.path (i :: place) ++ below, pin) n ↔
      circuit.Shows id part (fun k => fed.getD k 0) (fun j => values (first + j)) (below, pin) n :=
  holds.showsInside of of' named flat flat' given

theorem outputsCorrespond {output : Port × Source} (mem : output ∈ part.outputs) :
    circuit.Shows root whole inputs values (outer.path (i :: place), output.1.name)
      (output.2.value (fun k => fed.getD k 0) fun j => values (first + j)) := by
  have inside := @Flat.outputShows _ _ _ _ _ of' flat' (fun k => fed.getD k 0) (fun j => values (first + j)) output mem
  have outside := (holds.pinsCorrespond of of' named flat flat' given [] output.1.name _).mpr inside
  rw [List.append_nil] at outside
  exact outside

end Correspondence

end Design.Holds

/-- Inside an instance everything is as in its definition on its own: the pins have the values, the output ports
what a compute stores, and the slice of state becomes what an update makes of it. -/
theorem inlinedAgrees (circuit : Circuit) (checked : circuit.validate = .ok ()) (root id : Nat) (outer inner : Graph)
    (flat : circuit.flatten .builtin root = .ok outer) (flat' : circuit.flatten .builtin id = .ok inner)
    (path : List String) (proper : path ≠ []) (within : circuit.Within root path id) (args : List Nat)
    (fit : List.Forall₂ (fun n (port : Port) => n < 2 ^ port.width) args outer.inputs) (data : Bytes)
    (sized : data.size = outer.stateBytes + 16) :
    let inputs : Nat → Nat := fun k => args.getD k 0
    ∃ values first base, ∃ fed : List Nat,
      outer.Evaluates inputs (Node.words data) values ∧
      outer.Inlines inner path first base ∧
      fed = outer.fed path inner.inputs inputs values ∧
      List.Forall₂ (fun n (port : Port) => n < 2 ^ port.width) fed inner.inputs ∧
      (∀ k port, inner.inputs[k]? = some port →
        circuit.Shows root outer inputs values (path, port.name) (fed.getD k 0)) ∧
      (∀ pin n n', circuit.Shows root outer inputs values pin n → circuit.Shows root outer inputs values pin n' →
        n = n') ∧
      (∀ tap ∈ outer.taps,
        circuit.Shows root outer inputs values (tap.path, tap.pin) (tap.source.value inputs values)) ∧
      ∀ slice : Bytes, slice.size = inner.stateBytes + 16 →
        (∀ i < inner.stateBytes, data.byte (base + i) = slice.byte i) →
        let given : Nat → Nat := fun k => fed.getD k 0
        ∃ values', inner.Evaluates given (Node.words slice) values' ∧
          (∀ j < inner.nodes.length, values (first + j) = values' j) ∧
          (∀ below pin n, circuit.Shows root outer inputs values (path ++ below, pin) n ↔
            circuit.Shows id inner given values' (below, pin) n) ∧
          (∀ pin n n', circuit.Shows id inner given values' pin n → circuit.Shows id inner given values' pin n' → n = n') ∧
          (∀ tap ∈ inner.taps,
            circuit.Shows id inner given values' (tap.path, tap.pin) (tap.source.value given values')) ∧
          inner.Computes fed slice values' ∧
          (∀ output ∈ inner.outputs, circuit.Shows root outer inputs values (path, output.1.name)
            (output.2.value given values')) ∧
          ∃ data' slice', outer.Updates args data data' ∧ inner.Updates fed slice slice' ∧
            ∀ i < inner.stateBytes, data'.byte (base + i) = slice'.byte i := by
  intro inputs
  have named := Circuit.validateNamed checked
  obtain ⟨design, of, flattened⟩ := Circuit.flattenOf flat
  obtain ⟨design', of', flattened'⟩ := Circuit.flattenOf flat'
  obtain ⟨place, rfl, holds⟩ := of.holds Library.builtinPlaceless of' within
  have wellFormed := flattened.wellFormed of
  have wellFormed' := flattened'.wellFormed of'
  have evaluates := Graph.evaluates wellFormed inputs (Node.words data)
  have admits : outer.Admits inputs := Graph.argsAdmit fit
  obtain ⟨first, base, inlines, index⟩ := holds.inlines flattened flattened'
  cases place with
  | nil => exact absurd rfl proper
  | cons i place =>
    let values := outer.evaluate inputs (Node.words data)
    let fed := outer.fed (design.path (i :: place)) inner.inputs inputs values
    have fits : List.Forall₂ (fun n (port : Port) => n < 2 ^ port.width) fed inner.inputs :=
      holds.givenFits of named flattened flattened' admits evaluates.settled rfl
    have given : design.Fed design' (i :: place) inputs values first fun k => fed.getD k 0 :=
      holds.givenFed of named flattened flattened' admits evaluates.settled rfl index
    refine ⟨values, first, base, fed, evaluates, inlines, rfl, fits,
      fun k port known => holds.givenShown of named flattened flattened' admits evaluates.settled rfl known,
      fun pin n n' => Design.Flat.showsUnique of flattened named, Design.Flat.tapShows of flattened,
      fun slice sized' same => ?_⟩
    intro given'
    have carved := Bytes.carvedBytes.mpr same
    have settled : inner.Settled given' (Node.words slice) fun j => values (first + j) :=
      holds.settledInside of' flattened flattened' given inlines evaluates.settled fun node whole mem under k known =>
        Design.Holds.wordsInside of' flattened' carved mem under known
    have room : outer.stateBytes < data.size := by omega
    have room' : inner.stateBytes < slice.size := by omega
    exact ⟨fun j => values (first + j), ⟨settled, fun values' other => Graph.settledUnique wellFormed' other settled⟩,
      fun _ _ => rfl, holds.pinsCorrespond of of' named flattened flattened' given,
      fun pin n n' => Design.Flat.showsUnique of' flattened' named, Design.Flat.tapShows of' flattened',
      wellFormed'.computes fits room' settled,
      fun output mem => holds.outputsCorrespond of of' named flattened flattened' given mem,
      _, _, wellFormed.updates fit room evaluates.settled, wellFormed'.updates fits room' settled,
      Bytes.carvedBytes.mp (holds.advanceInside of of' flattened flattened' given inlines carved room room')⟩

def cells : Circuit := ⟨[
  { name := "cell"
    inputs := [⟨"now", 2⟩, ⟨"next", 2⟩]
    outputs := [⟨"inverted", 2⟩, ⟨"kept", 2⟩]
    instances := [⟨"invert", .primitive "not" [("width", 2)]⟩, ⟨"keep", .primitive "register" [("width", 2)]⟩]
    nets := [⟨.own "now", [.of "invert" "in"]⟩, ⟨.own "next", [.of "keep" "in"]⟩,
      ⟨.of "invert" "out", [.own "inverted"]⟩, ⟨.of "keep" "out", [.own "kept"]⟩] },
  { name := "row"
    inputs := [⟨"now", 2⟩]
    outputs := [⟨"last", 2⟩]
    instances := [⟨"first", .definition "cell"⟩, ⟨"second", .definition "cell"⟩]
    nets := [⟨.own "now", [.of "first" "now"]⟩, ⟨.of "first" "inverted", [.of "first" "next"]⟩,
      ⟨.of "first" "kept", [.of "second" "now"]⟩,
      ⟨.of "second" "inverted", [.of "second" "next", .own "last"]⟩] }], none⟩

theorem cellsAgree : ∃ outer inner data' slice', cells.flatten .builtin 1 = .ok outer ∧
    cells.flatten .builtin 0 = .ok inner ∧ outer.Updates [3] (#[1, 3] ++ Array.replicate 16 0) data' ∧
    inner.Updates [1, 2] (#[3] ++ Array.replicate 16 255) slice' ∧ data'.byte 1 = slice'.byte 0 := by
  let data : Bytes := #[1, 3] ++ Array.replicate 16 0
  let slice : Bytes := #[3] ++ Array.replicate 16 255
  let ports : List Port := [⟨"now", 2⟩]
  have within : cells.Within 1 ["second"] 0 :=
    @Circuit.Within.inside cells 1 [] 1 0 ⟨"second", .definition "cell"⟩ "cell" .root (by decide) rfl rfl
  cases flat : cells.flatten .builtin 1 with
  | error fault => exact nomatch flat
  | ok outer =>
    cases flat' : cells.flatten .builtin 0 with
    | error fault => exact nomatch flat'
    | ok inner =>
      have known := Except.ok.inj flat.symm
      have known' := Except.ok.inj flat'.symm
      subst known known'
      have fit : List.Forall₂ (fun n (port : Port) => n < 2 ^ port.width) [3] ports := by simp [ports]
      obtain ⟨values, first, base, fed, evaluates, inlines, given, -, -, -, -, inside⟩ := inlinedAgrees cells rfl 1 0 _ _
        flat flat' ["second"] (by decide) within [3] fit data rfl
      have word : data.field 0 2 = 1 := by decide
      have kept : values 1 = 1 := (evaluates.settled 1 _ rfl).trans word
      have inverted : values 2 = 2 := by
        have shown : values 2 = 3 - values 1 := evaluates.settled 2 _ rfl
        rw [shown, kept]
      have ports : fed = [1, 2] := by
        have taps : fed = [values 1, values 2] := given
        rw [taps, kept, inverted]
      have start : base = 1 := by
        obtain ⟨whole, here, under⟩ := inlines.nodes 1 _ rfl
        have path := under.path
        have offset := under.offset
        rcases first with _ | _ | _ | first
        · cases here
          exact absurd path (by decide)
        · cases here
          exact absurd path (by decide)
        · cases here
          exact offset.symm
        · exact nomatch here
      subst start ports
      have cut : ∀ i < 1, data.byte (1 + i) = slice.byte i := by decide
      obtain ⟨values', -, -, -, -, -, -, -, data', slice', updates, updates', same⟩ := inside slice rfl cut
      exact ⟨_, _, data', slice', rfl, rfl, updates, updates', same 0 Nat.zero_lt_one⟩

end CircuitSim
