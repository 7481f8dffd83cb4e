import CircuitSim.Proofs.Buffers
import CircuitSim.Proofs.Enumeration

/-! Which tap a query finds. Path and pin of a query are joined with dots to one name, so it finds the tap that has the
same pieces between all dots, however they are divided into names. Main statement: `tapsFound`. -/
namespace CircuitSim

section Pieces

/- A name that stays apart from others when it is joined with them. -/
def Dotless (name : String) : Prop := '.' ∉ name.toList

instance (name : String) : Decidable (Dotless name) := inferInstanceAs (Decidable ('.' ∉ name.toList))

def tapPieces (path : List String) (pin : String) : List (List Char) :=
  (path ++ [pin]).flatMap fun name => name.toList.splitOn '.'

theorem tapNameSplit (path : List String) (pin : String) :
    (tapName path pin).toList.splitOn '.' = tapPieces path pin := by
  induction path with
  | nil => exact (List.append_nil _).symm
  | cons part rest ih =>
    have joined : (tapName (part :: rest) pin).toList = part.toList ++ '.' :: (tapName rest pin).toList := by
      rw [tapName, List.foldr_cons, String.toList_append, String.toList_append, List.append_assoc]
      rfl
    rw [joined, List.splitOn_append_cons_self, ih]
    rfl

variable {path path' : List String} {pin pin' : String}

theorem tapNameIff : tapName path pin = tapName path' pin' ↔ tapPieces path pin = tapPieces path' pin' := by
  rw [← tapNameSplit, ← tapNameSplit]
  refine ⟨fun same => by rw [same], fun same => String.toList_injective ?_⟩
  have joined := congrArg ['.'].intercalate same
  rwa [List.intercalate_splitOn, List.intercalate_splitOn] at joined

theorem concatDotless (outer : ∀ name ∈ path, Dotless name) (last : Dotless pin) : ∀ name ∈ path ++ [pin], Dotless name :=
  List.forall_mem_append.mpr ⟨outer, List.forall_mem_singleton.mpr last⟩

theorem dotlessPieces (dotless : ∀ name ∈ path ++ [pin], Dotless name) :
    tapPieces path pin = (path ++ [pin]).map String.toList := by
  rw [tapPieces, List.map_eq_flatMap]
  exact List.flatMap_congr fun name mem => List.splitOn_eq_singleton (dotless name mem)

theorem dotlessSame (dotless : ∀ name ∈ path ++ [pin], Dotless name) (dotless' : ∀ name ∈ path' ++ [pin'], Dotless name)
    (same : tapPieces path pin = tapPieces path' pin') : path = path' ∧ pin = pin' := by
  rw [dotlessPieces dotless, dotlessPieces dotless'] at same
  have names := List.map_injective_iff.mpr (fun _ _ => String.toList_injective) same
  obtain ⟨outer, last⟩ := List.append_inj' names rfl
  exact ⟨outer, List.singleton_inj.mp last⟩

end Pieces

namespace Taps

def Exact (taps : Taps) (path : List String) (pin : String) : Prop :=
  ∀ i, taps.find? path pin = some i ↔ ∃ record, taps.records[i]? = some record ∧ record.path = path ∧ record.pin = pin

section Found

variable {rules : Rules} {graph : Graph} {taps : Taps} (laidOut : ofGraph rules graph = .ok taps) (path : List String)
  (pin : String)
include laidOut

theorem findTap (i : Nat) : taps.find? path pin = some i ↔
    ∃ tap, graph.taps[i]? = some tap ∧ tapPieces tap.path tap.pin = tapPieces path pin := by
  obtain ⟨region, made, done⟩ := Result.okBind laidOut
  cases done
  have means : region.position? (.name (tapName path pin)) = some i ↔ _ := (Record.freshMaps made).positionIff
  refine means.trans ?_
  rw [Key.Means, List.getElem?_map, Option.map_map, Option.map_eq_some_iff]
  exact exists_congr fun tap => and_congr_right fun _ => tapNameIff

theorem findRecord (i : Nat) : taps.find? path pin = some i ↔
    ∃ record, taps.records[i]? = some record ∧ tapPieces record.path record.pin = tapPieces path pin := by
  obtain ⟨recorded, -⟩ := recorded laidOut
  rw [findTap laidOut]
  constructor
  · rintro ⟨tap, here, same⟩
    obtain ⟨record, known, stands⟩ := Result.forallAt recorded here
    exact ⟨record, known, by rw [stands.path, stands.pin, same]⟩
  · rintro ⟨record, known, same⟩
    obtain ⟨tap, here, stands⟩ := Result.forallAt recorded.flip known
    exact ⟨tap, here, by rw [← stands.path, ← stands.pin, same]⟩

theorem findNone : taps.find? path pin = none ↔ ∀ tap ∈ graph.taps, tapPieces tap.path tap.pin ≠ tapPieces path pin := by
  rw [Option.eq_none_iff_forall_ne_some]
  constructor
  · intro missing tap mem same
    obtain ⟨i, here⟩ := List.mem_iff_getElem?.mp mem
    exact missing i ((findTap laidOut path pin i).mpr ⟨tap, here, same⟩)
  · intro other i found
    obtain ⟨tap, here, same⟩ := (findTap laidOut path pin i).mp found
    exact other tap (List.mem_of_getElem? here) same

theorem exactIff : taps.Exact path pin ↔ ∀ tap ∈ graph.taps,
    tapPieces tap.path tap.pin = tapPieces path pin → tap.path = path ∧ tap.pin = pin := by
  obtain ⟨recorded, -⟩ := recorded laidOut
  constructor
  · intro exact' tap mem same
    obtain ⟨i, here⟩ := List.mem_iff_getElem?.mp mem
    obtain ⟨record, known, own⟩ := (exact' i).mp ((findTap laidOut path pin i).mpr ⟨tap, here, same⟩)
    obtain ⟨record', known', stands⟩ := Result.forallAt recorded here
    obtain rfl := Option.some.inj (known.symm.trans known')
    rw [← stands.path, ← stands.pin]
    exact own
  · intro only i
    rw [findRecord laidOut]
    refine exists_congr fun record => and_congr_right fun known => ⟨fun same => ?_, fun own => by rw [own.1, own.2]⟩
    obtain ⟨tap, here, stands⟩ := Result.forallAt recorded.flip known
    rw [stands.path, stands.pin] at same ⊢
    exact only tap (List.mem_of_getElem? here) same

end Found

end Taps

namespace Circuit

def HasInput (circuit : Circuit) (library : Library) (root : Nat) (path : List String) (pin : String) : Prop :=
  ∃ width, circuit.InputAt library root (path, pin) width

variable {circuit : Circuit} {library : Library} {root : Nat} (checked : circuit.validate = .ok ())
include checked

theorem instanceDotless {id : Nat} {inst : Instance} (mem : inst ∈ (circuit.definition id).instances) :
    Dotless inst.name := by
  obtain ⟨usable, -⟩ := validateInstances checked id inst mem
  simp only [usableName, Bool.and_eq_true, Bool.not_eq_true', List.contains_eq_mem, decide_eq_false_iff_not] at usable
  exact usable.2

theorem withinDotless {path : List String} {id : Nat} (within : circuit.Within root path id) :
    ∀ name ∈ path, Dotless name := by
  induction within with
  | root => exact nofun
  | inside outer mem _ _ ih => exact concatDotless ih (instanceDotless checked mem)

theorem inputPath {path : List String} {pin : String} (known : circuit.HasInput library root path pin) :
    path ≠ [] ∧ ∀ name ∈ path, Dotless name := by
  obtain ⟨width, input⟩ := known
  cases input with
  | port within below => exact ⟨below, withinDotless checked within⟩
  | pin built =>
    cases built with
    | inside outer mem =>
      refine ⟨List.append_ne_nil_of_right_ne_nil _ (List.cons_ne_nil _ _), ?_⟩
      exact concatDotless (withinDotless checked outer) (instanceDotless checked mem)

theorem forallTaps {graph : Graph} (flat : circuit.flatten library root = .ok graph)
    (holds : List String → String → Prop) : (∀ tap ∈ graph.taps, holds tap.path tap.pin) ↔
      ∀ path pin, circuit.HasInput library root path pin → holds path pin := by
  obtain ⟨design, made⟩ := flattenMade flat
  constructor
  · rintro each path pin ⟨width, input⟩
    obtain ⟨tap, mem, rfl, rfl, -⟩ := made.inputTapped (validateNamed checked) input
    exact each tap mem
  · exact fun each tap mem => each _ _ ⟨_, made.tapInput tap mem⟩

theorem dotlessApart (pins : ∀ path pin, circuit.HasInput library root path pin → Dotless pin) {path path' : List String}
    {pin pin' : String} (dotless : ∀ name ∈ path ++ [pin], Dotless name) (known : circuit.HasInput library root path' pin')
    (same : tapPieces path' pin' = tapPieces path pin) : path' = path ∧ pin' = pin := by
  obtain ⟨-, outer⟩ := inputPath checked known
  exact dotlessSame (concatDotless outer (pins path' pin' known)) dotless same

end Circuit

namespace Simulator

def tapLayout (sim : Simulator) : Option Layout := sim.taps.map (·.region.layout)

theorem captureFails {sim : Simulator} {taps : Taps} {fault : Fault} (failed : sim.capture taps = .error fault) :
    ∃ why, fault = .trap why := by
  unfold capture at failed
  split at failed
  · cases failed
  · rcases Result.errorBind failed with stopped | ⟨_, -, done⟩
    · unfold invoke at stopped
      split at stopped
      · cases stopped
      · cases stopped
        exact ⟨_, rfl⟩
    · cases done

theorem unknownIff {sim : Simulator} (checked : sim.checkBuffers = .ok ()) {layout : Layout}
    (held : sim.tapLayout = some layout) {path : List String} {pin : String} :
    sim.getValue path pin = .error (.unknownTap (".".intercalate path) pin) ↔
      layout.position? (tapName path pin) = none := by
  obtain ⟨taps, present, rfl⟩ := Option.map_eq_some_iff.mp held
  cases found : taps.region.layout.position? (tapName path pin) with
  | none =>
    have missing : taps.find? path pin = none := found
    simp only [getValue, checked, present, missing, bind, Except.bind]
  | some index =>
    have known : taps.find? path pin = some index := found
    rw [getValue, checked, present]
    simp only [known, reduceCtorEq, iff_false]
    intro unknown
    rcases Result.errorBind unknown with unread | ⟨_, -, unknown⟩
    · cases unread
    · rcases Result.errorBind unknown with short | ⟨_, -, unknown⟩
      · unfold checkBuffer at short
        split at short <;> cases short
      · rcases Result.errorBind unknown with stopped | ⟨_, -, unknown⟩
        · obtain ⟨why, same⟩ := captureFails stopped
          cases same
        · rcases Result.errorBind unknown with unread | ⟨_, -, done⟩
          · rcases Result.errorBind unread with missing | ⟨_, -, done⟩
            · unfold Record.member at missing
              split at missing <;> cases missing
            · cases done
          · cases done

end Simulator

/-- A query finds the tap that has the same pieces between all dots. So the rule that only its own path and pin find a
tap holds for a query unless another input has its pieces. When no pin has a dot, it holds for every query without dots;
it holds for all queries only if nothing is tapped. Whatever was asked of a simulator with taps, it refuses just the
queries that find none. -/
theorem Circuit.tapsFound {circuit : Circuit} (checked : circuit.validate = .ok ()) {library : Library} {root : Nat}
    {graph : Graph} (flat : circuit.flatten library root = .ok graph) :
    let input := circuit.HasInput library root
    (∀ rules taps, Taps.ofGraph rules graph = .ok taps →
      (∀ path pin i, taps.find? path pin = some i ↔
        ∃ record, taps.records[i]? = some record ∧ tapPieces record.path record.pin = tapPieces path pin) ∧
      (∀ path pin, taps.Exact path pin ↔
        ∀ path' pin', input path' pin' → tapPieces path' pin' = tapPieces path pin → path' = path ∧ pin' = pin) ∧
      ((∀ path pin, input path pin → Dotless pin) →
        ∀ path pin, (∀ name ∈ path ++ [pin], Dotless name) → taps.Exact path pin) ∧
      ((∀ path pin, taps.Exact path pin) ↔ taps.records = [])) ∧
    ∀ platform settings sim, settings.taps = true → Simulator.ofCircuit platform circuit library settings root = .ok sim →
      ∀ requests path pin,
        let unknown := (sim.asked requests).getValue path pin = .error (.unknownTap (".".intercalate path) pin)
        (unknown ↔ ∀ path' pin', input path' pin' → tapPieces path' pin' ≠ tapPieces path pin) ∧
        ((∀ path' pin', input path' pin' → Dotless pin') → (∀ name ∈ path ++ [pin], Dotless name) →
          (unknown ↔ ¬input path pin)) := by
  refine ⟨fun rules taps laidOut => ?_, fun platform settings sim set built requests path pin => ?_⟩
  · have exactly (path : List String) (pin : String) := (Taps.exactIff laidOut path pin).trans
      (forallTaps checked flat fun path' pin' => tapPieces path' pin' = tapPieces path pin → path' = path ∧ pin' = pin)
    refine ⟨Taps.findRecord laidOut, exactly, fun pins path pin dotless => ?_, fun all => ?_, fun none path pin i => ?_⟩
    · exact (exactly path pin).mpr fun path' pin' => dotlessApart checked pins dotless
    · by_contra tapped
      obtain ⟨record, mem⟩ := List.exists_mem_of_ne_nil _ tapped
      obtain ⟨tap, listed, -⟩ := Result.forallMem (Taps.recorded laidOut).1 record mem
      have known := (forallTaps checked flat (circuit.HasInput library root)).mpr (fun _ _ => id) tap listed
      -- the whole name of a tap, asked for as a pin of the circuit itself
      obtain ⟨none, -⟩ := (exactly [] (tapName tap.path tap.pin)).mp (all _ _) _ _ known (tapNameIff.mp rfl)
      exact (inputPath checked known).1 none
    · rw [Taps.findRecord laidOut, none]
      simp
  · obtain ⟨taps, present, laidOut⟩ := Simulator.ofCircuitTaps built set flat
    obtain ⟨steady, passes⟩ := Simulator.buffersKept built requests
    have held : (sim.asked requests).tapLayout = some taps.region.layout := by
      rw [Simulator.tapLayout, steady.taps, present, Option.map_some]
    have refuses := (Simulator.unknownIff passes held).trans ((Taps.findNone laidOut path pin).trans
      (forallTaps checked flat fun path' pin' => tapPieces path' pin' ≠ tapPieces path pin))
    refine ⟨refuses, fun pins dotless => refuses.trans ⟨fun other known => other path pin known rfl, ?_⟩⟩
    intro missing path' pin' known same
    obtain ⟨rfl, rfl⟩ := dotlessApart checked pins dotless known same
    exact missing known

namespace Simulator

theorem countersLookedUp : counters.validate = .ok () ∧ ∃ graph taps sim, counters.flatten .builtin 1 = .ok graph ∧
    Taps.ofGraph .natural graph = .ok taps ∧ taps.Exact ["second", "add"] "lhs" ∧
      ofCircuit default counters .builtin { taps := true } 1 = .ok sim ∧ ∀ requests,
        (sim.asked requests).getValue ["second"] "lhs" = .error (.unknownTap "second" "lhs") := by
  have checked : counters.validate = .ok () := by decide +kernel
  have evaluated : (counters.flatten .builtin 1).toOption.any (fun graph =>
      graph.taps.all (fun tap => decide (Dotless tap.pin)) &&
        (Taps.ofGraph .natural graph).toOption.any fun _ => true) = true := by
    decide +kernel
  have looked : (ofCircuit default counters .builtin { taps := true } 1).toOption.any (fun sim =>
      decide ((sim.getValue ["second"] "lhs").map (·.1) = .error (.unknownTap "second" "lhs"))) = true := by
    decide +kernel
  obtain ⟨graph, flat, known⟩ := Result.okAny evaluated
  obtain ⟨plain, laid⟩ := Bool.and_eq_true_iff.mp known
  obtain ⟨taps, laidOut, -⟩ := Result.okAny laid
  obtain ⟨sim, built, unknown⟩ := Result.okAny looked
  have pins := (Circuit.forallTaps checked flat fun _ pin => Dotless pin).mp fun tap mem =>
    of_decide_eq_true (List.all_eq_true.mp plain tap mem)
  have dotless : ∀ name ∈ ["second"] ++ ["lhs"], Dotless name := by decide
  obtain ⟨found, refused⟩ := Circuit.tapsFound checked flat
  obtain ⟨-, -, apart, -⟩ := found .natural taps laidOut
  have missing := ((refused default _ sim rfl built [] ["second"] "lhs").2 pins dotless).mp
    (Result.errorMap (of_decide_eq_true unknown))
  refine ⟨checked, graph, taps, sim, flat, laidOut, apart pins _ _ (by decide), built, fun requests => ?_⟩
  exact ((refused default _ sim rfl built requests ["second"] "lhs").2 pins dotless).mpr missing

theorem undividedFound : counters.validate = .ok () ∧ ∃ graph taps sim i record later,
    counters.flatten .builtin 1 = .ok graph ∧ Taps.ofGraph .natural graph = .ok taps ∧
      taps.find? ["second.add"] "lhs" = some i ∧ taps.records[i]? = some record ∧ record.path = ["second", "add"] ∧
        ¬counters.HasInput .builtin 1 ["second.add"] "lhs" ∧
          ofCircuit default counters .builtin { taps := true } 1 = .ok sim ∧ sim.getValue ["second.add"] "lhs" = .ok (0, later) := by
  have checked : counters.validate = .ok () := by decide +kernel
  have evaluated : (counters.flatten .builtin 1).toOption.any (fun graph =>
      (Taps.ofGraph .natural graph).toOption.any fun taps => (taps.find? ["second.add"] "lhs").any fun i =>
        taps.records[i]?.any fun record => decide (record.path = ["second", "add"])) = true := by
    decide +kernel
  have looked : (ofCircuit default counters .builtin { taps := true } 1).toOption.any (fun sim =>
      (sim.getValue ["second.add"] "lhs").toOption.any fun read => decide (read.1 = 0)) = true := by
    decide +kernel
  obtain ⟨graph, flat, laid⟩ := Result.okAny evaluated
  obtain ⟨taps, laidOut, found⟩ := Result.okAny laid
  obtain ⟨i, here, recorded⟩ := (Option.any_eq_true ..).mp found
  obtain ⟨record, known, path⟩ := (Option.any_eq_true ..).mp recorded
  obtain ⟨sim, built, shown⟩ := Result.okAny looked
  obtain ⟨⟨value, later⟩, read, zero⟩ := Result.okAny shown
  obtain rfl := of_decide_eq_true zero
  refine ⟨checked, graph, taps, sim, i, record, later, flat, laidOut, here, known, of_decide_eq_true path, ?_, built, read⟩
  intro input
  exact absurd ((Circuit.inputPath checked input).2 "second.add" List.mem_cons_self) (by decide)

end Simulator

end CircuitSim
