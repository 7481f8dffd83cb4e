import CircuitSim.Code.Emit
import CircuitSim.Code.Run
import CircuitSim.Proofs.Memory
import CircuitSim.Proofs.Result

/-! What emitted code does when it runs. `exec` is `run` with the frame and the accesses kept, so that code in
two parts can be followed part by part, and `Meets` is the Hoare triple of an emission: it succeeds, its
code runs without a trap, every access is allowed, and the result, frame and memory are as stated. -/
namespace CircuitSim

def Context.bare : Context := ⟨fun _ _ _ => .error .noFunction, fun _ _ => 0⟩

structure Access where
  block : Nat
  start : Nat
  bytes : Nat
  deriving DecidableEq, Repr

def Memory.touched (memory : Memory) (ptr : Value) (offset : Int) (bytes : Nat) : List Access :=
  if bytes = 0 then []
  else
    match memory.locate ptr offset bytes with
    | .ok (block, start) => [⟨block, start, bytes⟩]
    | .error _ => []

def Op.touched (frame : Frame) (memory : Memory) : Op → List Access
  | .load ptr distance bytes => memory.touched (frame.get ptr) distance bytes
  | _ => []

structure Reached where
  frame : Frame
  memory : Memory
  touched : List Access
  deriving DecidableEq, Repr

def Reached.after (reached : Reached) (earlier : List Access) : Reached :=
  { reached with touched := earlier ++ reached.touched }

/-- As `run`, keeping the frame at the end and the accesses on the way. Those of called functions are not among
them. -/
def Code.exec (context : Context) : Code → Frame → Memory → Except Trap Reached
  | done, frame, memory => .ok ⟨frame, memory, []⟩
  | define op rest, frame, memory =>
    match op.step context frame memory with
    | .ok (frame', memory') => (rest.exec context frame' memory').map (·.after (op.touched frame memory))
    | .error trap => .error trap
  | store arg ptr offset bytes rest, frame, memory =>
    match memory.store (frame.get ptr) offset bytes (frame.bits arg) with
    | .ok memory' =>
      (rest.exec context frame memory').map (·.after (memory.touched (frame.get ptr) offset bytes))
    | .error trap => .error trap
  | call function args rest, frame, memory =>
    match context.call function (args.map frame.get) memory with
    | .ok memory' => rest.exec context frame memory'
    | .error trap => .error trap
  | branch cond body rest, frame, memory =>
    if (frame.get cond).isSet then
      match body.exec context frame memory with
      | .ok inner => (rest.exec context (frame.skip body.values) inner.memory).map (·.after inner.touched)
      | .error trap => .error trap
    else rest.exec context (frame.skip body.values) memory

namespace Code

theorem runExec (context : Context) (code : Code) (frame : Frame) (memory : Memory) :
    code.run context frame memory = (code.exec context frame memory).map (·.memory) := by
  induction code generalizing frame memory with
  | done => rfl
  | define op rest ih =>
    rw [run, exec]
    cases op.step context frame memory with
    | error trap => rfl
    | ok next =>
      simp only
      rw [ih]
      cases rest.exec context next.1 next.2 <;> rfl
  | store arg ptr offset bytes rest ih =>
    rw [run, exec]
    cases memory.store (frame.get ptr) offset bytes (frame.bits arg) with
    | error trap => rfl
    | ok memory' =>
      simp only
      rw [ih]
      cases rest.exec context frame memory' <;> rfl
  | call function args rest ih =>
    rw [run, exec]
    cases context.call function (args.map frame.get) memory with
    | error trap => rfl
    | ok memory' => exact ih frame memory'
  | branch cond body rest ihBody ihRest =>
    rw [run, exec]
    split
    · rw [ihBody]
      cases body.exec context frame memory with
      | error trap => rfl
      | ok inner =>
        simp only [Except.map]
        rw [ihRest]
        cases rest.exec context (frame.skip body.values) inner.memory <;> rfl
    · exact ihRest _ _

theorem execAppend (context : Context) (a b : Code) (frame : Frame) (memory : Memory) :
    (a ++ b).exec context frame memory = (a.exec context frame memory).bind fun first =>
      (b.exec context first.frame first.memory).map (·.after first.touched) := by
  -- what was reached before comes before in both orders of joining the parts
  have behind (touched : List Access) (x : Except Trap Reached) :
      ((x.bind fun first => (b.exec context first.frame first.memory).map (·.after first.touched)).map
        (·.after touched)) = (x.map (·.after touched)).bind fun first =>
          (b.exec context first.frame first.memory).map (·.after first.touched) := by
    cases x with
    | error trap => rfl
    | ok first =>
      simp only [Except.bind, Except.map, Reached.after]
      cases b.exec context first.frame first.memory with
      | error trap => rfl
      | ok second => simp only [List.append_assoc]
  induction a generalizing frame memory with
  | done =>
    rw [done_append, exec]
    simp only [Except.bind]
    cases b.exec context frame memory <;> rfl
  | define op rest ih =>
    rw [define_append, exec, exec]
    cases op.step context frame memory with
    | error trap => rfl
    | ok next =>
      simp only
      rw [ih, behind]
  | store arg ptr offset bytes rest ih =>
    rw [store_append, exec, exec]
    cases memory.store (frame.get ptr) offset bytes (frame.bits arg) with
    | error trap => rfl
    | ok memory' =>
      simp only
      rw [ih, behind]
  | call function args rest ih =>
    rw [call_append, exec, exec]
    cases context.call function (args.map frame.get) memory with
    | error trap => rfl
    | ok memory' => exact ih frame memory'
  | branch cond body rest _ ih =>
    rw [branch_append, exec, exec]
    split
    · cases body.exec context frame memory with
      | error trap => rfl
      | ok inner =>
        simp only
        rw [ih, behind]
    · exact ih _ _

end Code

namespace Frame

def Holds (frame : Frame) (ref : Ref) (value : Value) : Prop := frame.values[ref]? = some value

structure Grows (frame frame' : Frame) : Prop where
  params : frame'.params = frame.params
  holds : ∀ {ref value}, frame.Holds ref value → frame'.Holds ref value

theorem getHeld {frame : Frame} {ref : Ref} {value : Value} (held : frame.Holds ref value) :
    frame.get ref = value := by
  unfold Holds at held
  rw [get, Array.getD_eq_getD_getElem?, held, Option.getD_some]

theorem bitsHeld {frame : Frame} {ref : Ref} {n : Nat} (held : frame.Holds ref (.number n)) :
    frame.bits ref = n := by
  rw [bits, getHeld held]
  rfl

theorem Grows.refl (frame : Frame) : frame.Grows frame := ⟨rfl, id⟩

theorem Grows.trans {a b c : Frame} (first : a.Grows b) (second : b.Grows c) : a.Grows c :=
  ⟨second.params.trans first.params, fun held => second.holds (first.holds held)⟩

theorem growsAppend {frame frame' : Frame} {more : Array Value} (params : frame'.params = frame.params)
    (values : frame'.values = frame.values ++ more) : frame.Grows frame' := by
  refine ⟨params, fun {ref value} held => ?_⟩
  unfold Holds at held ⊢
  obtain ⟨inside, -⟩ := Array.getElem?_eq_some_iff.mp held
  rw [values, Array.getElem?_append_left inside, held]

theorem pushGrows (frame : Frame) (value : Value) : frame.Grows (frame.push value) :=
  growsAppend rfl (Array.push_eq_append : frame.values.push value = frame.values ++ #[value])

theorem skipGrows (frame : Frame) (count : Nat) : frame.Grows (frame.skip count) := growsAppend rfl rfl

theorem pushHolds (frame : Frame) (value : Value) : (frame.push value).Holds frame.values.size value := by
  simp [Holds, push]

end Frame

theorem Op.stepEval {context : Context} {op : Op} (plain : ∀ bytes, op ≠ .slot bytes) (frame : Frame) (memory : Memory) :
    op.step context frame memory = (op.eval frame memory).map fun value => (frame.push value, memory) := by
  cases op with
  | slot bytes => exact absurd rfl (plain bytes)
  | _ => rfl

theorem Op.stepPush {context : Context} {op : Op} {frame frame' : Frame} {memory memory' : Memory}
    (ok : op.step context frame memory = .ok (frame', memory')) : ∃ value, frame' = frame.push value := by
  by_cases plain : ∀ bytes, op ≠ .slot bytes
  · rw [stepEval plain] at ok
    obtain ⟨value, -, same⟩ := Result.okMap ok
    cases same
    exact ⟨value, rfl⟩
  · obtain ⟨bytes, slot⟩ := not_forall_not.mp plain
    subst slot
    cases ok
    exact ⟨_, rfl⟩

theorem Code.execGrows {context : Context} {code : Code} {frame : Frame} {memory : Memory} {reached : Reached}
    (ok : code.exec context frame memory = .ok reached) :
    frame.Grows reached.frame ∧ reached.frame.values.size = frame.values.size + code.values := by
  induction code generalizing frame memory reached with
  | done =>
    cases ok
    exact ⟨.refl frame, rfl⟩
  | define op rest ih =>
    rw [exec] at ok
    cases hs : op.step context frame memory with
    | error trap => simp [hs] at ok
    | ok next =>
      simp only [hs] at ok
      obtain ⟨inner, hi, rfl⟩ := Result.okMap ok
      obtain ⟨value, hv⟩ := Op.stepPush hs
      obtain ⟨grows, size⟩ := ih hi
      rw [hv] at grows size
      refine ⟨(frame.pushGrows value).trans grows, size.trans ?_⟩
      simp [Frame.push, values]
      omega
  | store arg ptr offset bytes rest ih =>
    rw [exec] at ok
    cases hs : memory.store (frame.get ptr) offset bytes (frame.bits arg) with
    | error trap => simp [hs] at ok
    | ok memory' =>
      simp only [hs] at ok
      obtain ⟨inner, hi, rfl⟩ := Result.okMap ok
      have tail := ih hi
      exact tail
  | call function args rest ih =>
    rw [exec] at ok
    cases hs : context.call function (args.map frame.get) memory with
    | error trap => simp [hs] at ok
    | ok memory' =>
      simp only [hs] at ok
      exact ih ok
  | branch cond body rest ihBody ih =>
    have tail : ∀ {memory' : Memory} {inner : Reached},
        rest.exec context (frame.skip body.values) memory' = .ok inner →
        frame.Grows inner.frame ∧
          inner.frame.values.size = frame.values.size + (branch cond body rest).values := by
      intro memory' inner hi
      obtain ⟨grows, size⟩ := ih hi
      refine ⟨(frame.skipGrows body.values).trans grows, size.trans ?_⟩
      simp [Frame.skip, values, Nat.add_assoc]
    rw [exec] at ok
    split at ok
    · cases hb : body.exec context frame memory with
      | error trap => simp [hb] at ok
      | ok inner =>
        simp only [hb] at ok
        obtain ⟨last, hl, rfl⟩ := Result.okMap ok
        have last := tail hl
        exact last
    · exact tail ok

namespace Emit

variable {α β γ : Type}

theorem idMap (first : Emit α) : id <$> first = first := by
  funext next
  simp only [Functor.map, bind, Emit.bind]
  cases first next with
  | error fault => rfl
  | ok a => simp [Emit.pure]

theorem pureBind (a : α) (second : α → Emit β) : Pure.pure a >>= second = second a := by
  funext next
  simp only [Bind.bind, Pure.pure, Emit.bind, Emit.pure]
  cases second a next with
  | error fault => rfl
  | ok b => simp

theorem bindAssoc (first : Emit α) (second : α → Emit β) (third : β → Emit γ) :
    first >>= second >>= third = first >>= fun a => second a >>= third := by
  funext next
  simp only [Bind.bind, Emit.bind]
  cases first next with
  | error fault => rfl
  | ok a =>
    simp only
    cases second a.result a.next with
    | error fault => rfl
    | ok b =>
      simp only
      cases third b.result b.next with
      | error fault => rfl
      | ok c => simp [Code.append_assoc]

instance : LawfulMonad Emit := LawfulMonad.mk' Emit idMap pureBind bindAssoc

variable {context : Context} {allowed : Access → Prop} {frame : Frame} {memory : Memory}

def Runs (context : Context) (e : Emit α) (frame : Frame) (memory : Memory) (result : α) (reached : Reached) :
    Prop :=
  ∃ code, e frame.values.size = .ok ⟨result, code, reached.frame.values.size⟩ ∧
    code.exec context frame memory = .ok reached

def Meets (context : Context) (allowed : Access → Prop) (e : Emit α) (frame : Frame) (memory : Memory)
    (post : α → Frame → Memory → Prop) : Prop :=
  ∃ result reached, Runs context e frame memory result reached ∧ (∀ access ∈ reached.touched, allowed access) ∧
    post result reached.frame reached.memory

def Gives (context : Context) (allowed : Access → Prop) (e : Emit Ref) (frame : Frame) (memory : Memory)
    (value : Value) : Prop :=
  Meets context allowed e frame memory fun ref frame' memory' => memory' = memory ∧ frame'.Holds ref value

def Leaves (context : Context) (allowed : Access → Prop) (e : Emit Unit) (frame : Frame) (memory memory' : Memory) :
    Prop :=
  Meets context allowed e frame memory fun _ _ reached => reached = memory'

theorem Runs.grows {e : Emit α} {result : α} {reached : Reached}
    (runs : Runs context e frame memory result reached) : frame.Grows reached.frame := by
  obtain ⟨code, -, ok⟩ := runs
  exact (Code.execGrows ok).1

theorem Runs.pure (result : α) : Runs context (Pure.pure result) frame memory result ⟨frame, memory, []⟩ :=
  ⟨.done, rfl, rfl⟩

theorem Runs.bind {e : Emit α} {next : α → Emit β} {a : α} {b : β} {first second : Reached}
    (before : Runs context e frame memory a first)
    (behind : Runs context (next a) first.frame first.memory b second) :
    Runs context (e >>= next) frame memory b (second.after first.touched) := by
  obtain ⟨code, emitted, ran⟩ := before
  obtain ⟨code', emitted', ran'⟩ := behind
  refine ⟨code ++ code', ?_, ?_⟩
  · simp only [Bind.bind, Emit.bind, emitted, emitted']
    rfl
  · rw [Code.execAppend, ran, Except.bind, ran']
    rfl

theorem Meets.pure {result : α} {post : α → Frame → Memory → Prop} (holds : post result frame memory) :
    Meets context allowed (Pure.pure result) frame memory post :=
  ⟨result, ⟨frame, memory, []⟩, .pure result, by simp, holds⟩

theorem Meets.bind {e : Emit α} {next : α → Emit β} {mid : α → Frame → Memory → Prop}
    {post : β → Frame → Memory → Prop} (first : Meets context allowed e frame memory mid)
    (rest : ∀ a frame' memory', frame.Grows frame' → mid a frame' memory' →
      Meets context allowed (next a) frame' memory' post) :
    Meets context allowed (e >>= next) frame memory post := by
  obtain ⟨a, reached, runs, safe, holds⟩ := first
  obtain ⟨b, reached', runs', safe', holds'⟩ := rest a reached.frame reached.memory runs.grows holds
  refine ⟨b, _, runs.bind runs', ?_, holds'⟩
  intro access member
  rcases List.mem_append.mp member with before | behind
  · exact safe access before
  · exact safe' access behind

theorem Meets.mono {e : Emit α} {post post' : α → Frame → Memory → Prop}
    (meets : Meets context allowed e frame memory post)
    (weaker : ∀ a frame' memory', frame.Grows frame' → post a frame' memory' → post' a frame' memory') :
    Meets context allowed e frame memory post' := by
  obtain ⟨a, reached, runs, safe, holds⟩ := meets
  exact ⟨a, reached, runs, safe, weaker a reached.frame reached.memory runs.grows holds⟩

theorem Gives.bind {e : Emit Ref} {next : Ref → Emit β} {value : Value} {post : β → Frame → Memory → Prop}
    (first : Gives context allowed e frame memory value)
    (rest : ∀ ref frame', frame.Grows frame' → frame'.Holds ref value →
      Meets context allowed (next ref) frame' memory post) :
    Meets context allowed (e >>= next) frame memory post := by
  apply Meets.bind first
  rintro ref frame' _ grows ⟨rfl, held⟩
  exact rest ref frame' grows held

theorem Gives.to {e : Emit Ref} {value value' : Value} (gives : Gives context allowed e frame memory value)
    (same : value = value') : Gives context allowed e frame memory value' := same ▸ gives

theorem Leaves.bind {e : Emit Unit} {next : Unit → Emit β} {memory' : Memory}
    {post : β → Frame → Memory → Prop} (first : Leaves context allowed e frame memory memory')
    (rest : ∀ frame', frame.Grows frame' → Meets context allowed (next ()) frame' memory' post) :
    Meets context allowed (e >>= next) frame memory post := by
  apply Meets.bind first
  rintro ⟨⟩ frame' _ grows rfl
  exact rest frame' grows

theorem opGives {op : Op} {value : Value} (plain : ∀ bytes, op ≠ .slot bytes)
    (eval : op.eval frame memory = .ok value) (safe : ∀ access ∈ op.touched frame memory, allowed access) :
    Gives context allowed (Emit.op op) frame memory value := by
  refine ⟨frame.values.size, ⟨frame.push value, memory, op.touched frame memory⟩,
    ⟨.define op .done, ?_, ?_⟩, safe, rfl, frame.pushHolds value⟩
  · simp [Emit.op, Frame.push]
  · rw [Code.exec, Op.stepEval plain, eval]
    simp [Except.map, Code.exec, Reached.after]

theorem constGives {width n : Nat} (fits : width ≤ 128) (small : n < 2 ^ width) :
    Gives context allowed (const width n) frame memory (.number n) :=
  opGives nofun (by rw [Op.eval, Word.constSmall fits small]) nofun

section Operands

variable {a b : Ref} {x y : Nat} (ha : frame.Holds a (.number x)) (hb : frame.Holds b (.number y))
include ha

theorem notGives {width : Nat} (fits : width ≤ 128) (small : x < 2 ^ width) :
    Gives context allowed (not width a) frame memory (.number (2 ^ width - 1 - x)) :=
  opGives nofun (by rw [Op.eval, frame.bitsHeld ha, Word.notEq fits small]) nofun

theorem resizeGives {source target : Nat} (fits : target ≤ 128) (small : x < 2 ^ source) :
    Gives context allowed (resize a source target) frame memory (.number (x % 2 ^ target)) :=
  opGives nofun (by rw [Op.eval, frame.bitsHeld ha, Word.resizeEq fits small]) nofun

theorem resizeNativeGives {source : Nat} (target : Nat) (small : x < 2 ^ source) (native : x < 2 ^ 128) :
    Gives context allowed (resize a source target) frame memory (.number (x % 2 ^ target)) :=
  opGives nofun (by rw [Op.eval, frame.bitsHeld ha, Word.resizeNative small native]) nofun

theorem uremGives {width divisor : Nat} (fits : width ≤ 128) (pos : 0 < divisor) (small : divisor < 2 ^ width) :
    Gives context allowed (urem width a divisor) frame memory (.number (x % divisor)) := by
  have nonzero : Word.wrap width divisor ≠ 0 := by
    rw [Word.wrapSmall fits small]
    omega
  exact opGives nofun (by rw [Op.eval, if_neg nonzero, frame.bitsHeld ha, Word.uremEq fits small]) nofun

include hb

theorem binaryGives (op : BinaryOp) (width : Nat) :
    Gives context allowed (binary op width a b) frame memory (.number (Word.binary op width x y)) :=
  opGives nofun (by rw [Op.eval, frame.bitsHeld ha, frame.bitsHeld hb]) nofun

theorem compareGives (op : CompareOp) (width : Nat) :
    Gives context allowed (compare op width a b) frame memory (.number (Word.compare op x y)) :=
  opGives nofun (by rw [Op.eval, frame.bitsHeld ha, frame.bitsHeld hb]) nofun

theorem shlGives {width : Nat} (fits : width ≤ 128) (amount : y < width) :
    Gives context allowed (shl width a b) frame memory (.number (x <<< y % 2 ^ width)) :=
  opGives nofun (by rw [Op.eval, frame.bitsHeld ha, frame.bitsHeld hb, Word.shlEq fits amount]) nofun

theorem lshrGives {width : Nat} (fits : width ≤ 128) (amount : y < width) :
    Gives context allowed (lshr width a b) frame memory (.number (x >>> y)) :=
  opGives nofun (by rw [Op.eval, frame.bitsHeld ha, frame.bitsHeld hb, Word.lshrEq fits amount]) nofun

theorem lshrWithinGives {width : Nat} (amount : y < Width.containerBits width) :
    Gives context allowed (lshr width a b) frame memory (.number (x >>> y)) :=
  opGives nofun (by rw [Op.eval, frame.bitsHeld ha, frame.bitsHeld hb, Word.lshrWithin amount]) nofun

theorem selectGives {cond : Ref} {c : Nat} (hc : frame.Holds cond (.number c)) (width : Nat) :
    Gives context allowed (select width cond a b) frame memory (.number (if c = 0 then y else x)) := by
  have chosen : (Op.select width cond a b).eval frame memory = .ok (.number (if c = 0 then y else x)) := by
    rw [Op.eval, frame.getHeld ha, frame.getHeld hb, frame.getHeld hc]
    by_cases clear : c = 0 <;> simp [Value.isSet, Value.bits, clear]
  exact opGives nofun chosen nofun

end Operands

theorem paramGives {i : Nat} {value : Value} (given : frame.params[i]? = some value) :
    Gives context allowed (param i) frame memory value :=
  opGives nofun (by rw [Op.eval, List.getD_eq_getElem?_getD, given, Option.getD_some]) nofun

theorem slotMeets (bytes : Nat) : Meets context allowed (slot bytes) frame memory fun ref frame' memory' =>
    (∃ data : Bytes, data.size = bytes ∧ memory' = memory.push data) ∧ frame'.Holds ref (.address memory.size 0) :=
  let data : Bytes := (Array.range bytes).map (context.fresh memory)
  ⟨frame.values.size, ⟨frame.push (.address memory.size 0), memory.push data, []⟩,
    ⟨.define (.slot bytes) .done, by simp [slot, Emit.op, Frame.push], rfl⟩, nofun,
    ⟨data, by rw [Array.size_map, Array.size_range], rfl⟩, frame.pushHolds _⟩

theorem callLeaves {function : Nat} {args : List Ref} {memory' : Memory}
    (ran : context.call function (args.map frame.get) memory = .ok memory') :
    Leaves context allowed (call function args) frame memory memory' := by
  refine ⟨(), ⟨frame, memory', []⟩, ⟨.call function args .done, rfl, ?_⟩, nofun, rfl⟩
  rw [Code.exec, ran]
  rfl

theorem branchLeaves {cond : Ref} {n : Nat} {body : Emit Unit} {memory' : Memory}
    (held : frame.Holds cond (.number n)) (inner : Leaves context allowed body frame memory memory') :
    Leaves context allowed (branch cond body) frame memory (if n = 0 then memory else memory') := by
  obtain ⟨⟨⟩, reached, ⟨code, emitted, ran⟩, safe, rfl⟩ := inner
  have size := (Code.execGrows ran).2
  have skipped : (frame.skip code.values).values.size = reached.frame.values.size := by
    simp [Frame.skip, size]
  have written : branch cond body frame.values.size =
      .ok ⟨(), .branch cond code .done, (frame.skip code.values).values.size⟩ := by
    rw [branch, emitted, skipped]
  have taken : (frame.get cond).isSet = decide (n ≠ 0) := by
    rw [frame.getHeld held]
    rfl
  by_cases clear : n = 0
  · refine ⟨(), ⟨frame.skip code.values, memory, []⟩, ⟨_, written, ?_⟩, nofun, by simp [clear]⟩
    simp [Code.exec, taken, clear]
  · refine ⟨(), ⟨frame.skip code.values, reached.memory, reached.touched⟩, ⟨_, written, ?_⟩, safe,
      by simp [clear]⟩
    simp [Code.exec, taken, clear, ran, Except.map, Reached.after]

theorem storeRuns {arg ptr : Ref} {offset : Int} {bytes n : Nat} {memory' : Memory} (value : frame.Holds arg (.number n))
    (stored : memory.store (frame.get ptr) offset bytes n = .ok memory')
    (safe : ∀ access ∈ memory.touched (frame.get ptr) offset bytes, allowed access) :
    Leaves context allowed (store arg ptr offset bytes) frame memory memory' := by
  refine ⟨(), ⟨frame, memory', memory.touched (frame.get ptr) offset bytes⟩,
    ⟨.store arg ptr offset bytes .done, rfl, ?_⟩, safe, rfl⟩
  simp [Code.exec, frame.bitsHeld value, stored, Except.map, Reached.after]

section Pointers

variable {ptr : Ref} {block : Nat} {position : Int} (held : frame.Holds ptr (.address block position))
include held

theorem offsetGives (distance : Int) :
    Gives context allowed (offset ptr distance) frame memory (.address block (position + distance)) :=
  opGives nofun (by rw [Op.eval, frame.getHeld held]; rfl) nofun

theorem indexGives {distance : Ref} {n : Nat} (far : frame.Holds distance (.number n)) (small : n < 2 ^ 63) :
    Gives context allowed (index 64 ptr distance) frame memory (.address block (position + n)) := by
  have fits : n < 2 ^ 64 := by omega
  have signed : Value.signed n = n := by
    unfold Value.signed
    exact Int.bmod_eq_of_le (by omega) (by omega)
  have moved : (Op.index 64 ptr distance).eval frame memory = .ok (.address block (position + n)) := by
    rw [Op.eval, frame.getHeld held, frame.bitsHeld far, Word.resizeWider (by decide) (Nat.le_refl _) fits,
      signed]
    rfl
  exact opGives nofun moved nofun

variable {offset : Int} {data : Bytes} {start bytes : Nat} (here : memory[block]? = some data)
  (place : position + offset = start) (fits : start + bytes ≤ data.size) (small : bytes ≤ 16)
  (safe : allowed ⟨block, start, bytes⟩)
include here place fits safe

omit held in
theorem touchedInside : ∀ access ∈ memory.touched (.address block position) offset bytes, allowed access := by
  intro access member
  unfold Memory.touched at member
  split at member
  · simp at member
  · rw [Memory.locateInside here place fits] at member
    simp only [List.mem_singleton] at member
    exact member ▸ safe

include small

theorem loadGives : Gives context allowed (load ptr offset bytes) frame memory
    (.number (data.field (8 * start) (8 * bytes))) := by
  refine opGives (by simp) ?_ ?_
  · rw [Op.eval, frame.getHeld held, Memory.loadInside here place fits small]
    rfl
  · rw [Op.touched, frame.getHeld held]
    exact touchedInside here place fits safe

theorem storeLeaves {arg : Ref} {n : Nat} (value : frame.Holds arg (.number n)) :
    Leaves context allowed (store arg ptr offset bytes) frame memory
      (memory.setIfInBounds block (data.put (8 * start) (8 * bytes) n)) := by
  apply storeRuns value
  · rw [frame.getHeld held, Memory.storeInside here place fits small]
  · rw [frame.getHeld held]
    exact touchedInside here place fits safe

end Pointers

theorem Runs.body {body : Emit Unit} {params : List Value} {reached : Reached}
    (runs : Runs context body (.ofParams params) memory () reached) :
    ∃ code, body.code = .ok code ∧ code.exec context (.ofParams params) memory = .ok reached := by
  obtain ⟨code, emitted, ran⟩ := runs
  refine ⟨code, ?_, ran⟩
  have whole : body 0 = .ok ⟨(), code, reached.frame.values.size⟩ := emitted
  rw [Emit.code, whole]
  rfl

theorem Meets.body {body : Emit Unit} {params : List Value} {allowed : Access → Prop}
    {post : Unit → Frame → Memory → Prop} (meets : Meets context allowed body (.ofParams params) memory post) :
    ∃ code frame' memory', body.code = .ok code ∧ code.run context (.ofParams params) memory = .ok memory' ∧
      post () frame' memory' := by
  obtain ⟨⟨⟩, reached, runs, -, holds⟩ := meets
  obtain ⟨code, emitted, ran⟩ := runs.body
  exact ⟨code, reached.frame, reached.memory, emitted, by rw [Code.runExec, ran]; rfl, holds⟩

def Stops (context : Context) (e : Emit α) (frame : Frame) (memory : Memory) (trap : Trap) : Prop :=
  ∀ written, e frame.values.size = .ok written → written.code.exec context frame memory = .error trap

variable {trap : Trap}

theorem Stops.bind {e : Emit α} {next : α → Emit β} (stops : Stops context e frame memory trap) :
    Stops context (e >>= next) frame memory trap := by
  intro written emitted
  simp only [Bind.bind, Emit.bind] at emitted
  split at emitted
  · cases emitted
  · rename_i first begun
    split at emitted
    · cases emitted
    · cases emitted
      rw [Code.execAppend, stops first begun]
      rfl

theorem Meets.stops {e : Emit α} {next : α → Emit β} {mid : α → Frame → Memory → Prop}
    (first : Meets context allowed e frame memory mid)
    (rest : ∀ a frame' memory', frame.Grows frame' → mid a frame' memory' → Stops context (next a) frame' memory' trap) :
    Stops context (e >>= next) frame memory trap := by
  obtain ⟨a, reached, runs, -, holds⟩ := first
  have stops := rest a reached.frame reached.memory runs.grows holds
  obtain ⟨code, begun, ran⟩ := runs
  intro written emitted
  simp only [Bind.bind, Emit.bind, begun] at emitted
  split at emitted
  · cases emitted
  · rename_i second ended
    cases emitted
    rw [Code.execAppend, ran, Except.bind, stops second ended]
    rfl

theorem Stops.body {body : Emit Unit} {params : List Value} {code : Code} (emitted : body.code = .ok code)
    (stops : Stops context body (.ofParams params) memory trap) :
    code.run context (.ofParams params) memory = .error trap := by
  obtain ⟨written, whole, rfl⟩ := Result.okMap emitted
  rw [Code.runExec, stops written whole]
  rfl

end Emit

end CircuitSim
