import CircuitSim.Code.Memory

/-!
Running code on memory. The values so far are kept in the order of their numbers; a branch that is not taken
leaves its numbers without meaning. What a call does and what fresh memory holds are parameters, so that code has
a meaning before it is linked.
-/
namespace CircuitSim

structure Frame where
  params : List Value
  values : Array Value
  deriving DecidableEq, Repr

namespace Frame

def ofParams (params : List Value) : Frame := ⟨params, #[]⟩

def get (frame : Frame) (ref : Ref) : Value := frame.values.getD ref (.number 0)

def bits (frame : Frame) (ref : Ref) : Nat := (frame.get ref).bits

def push (frame : Frame) (value : Value) : Frame := { frame with values := frame.values.push value }

def skip (frame : Frame) (count : Nat) : Frame :=
  { frame with values := frame.values ++ Array.replicate count (.number 0) }

end Frame

def Op.eval (frame : Frame) (memory : Memory) : Op → Except Trap Value
  | .const width n => .ok (.number (Word.const width n))
  | .binary op width a b => .ok (.number (Word.binary op width (frame.bits a) (frame.bits b)))
  | .not width a => .ok (.number (Word.not width (frame.bits a)))
  | .compare op _ a b => .ok (.number (Word.compare op (frame.bits a) (frame.bits b)))
  | .select _ cond a b => .ok (if (frame.get cond).isSet then frame.get a else frame.get b)
  | .shl width a amount => .ok (.number (Word.shl width (frame.bits a) (frame.bits amount)))
  | .lshr width a amount => .ok (.number (Word.lshr width (frame.bits a) (frame.bits amount)))
  | .urem width a divisor =>
    if Word.wrap width divisor = 0 then .error .divideByZero
    else .ok (.number (Word.urem width (frame.bits a) divisor))
  | .resize a source target => .ok (.number (Word.resize source target (frame.bits a)))
  | .load ptr distance bytes => (memory.load (frame.get ptr) distance bytes).map .number
  | .offset ptr distance => .ok ((frame.get ptr).move distance)
  | .index width ptr distance =>
    .ok ((frame.get ptr).move (Value.signed (Word.resize width 64 (frame.bits distance))))
  | .slot _ => .ok (.number 0)
  | .param i => .ok (frame.params.getD i (.number 0))

/-- What code runs in. -/
structure Context where
  /-- The effect of calling a function of the same module on arguments and memory. -/
  call : Nat → List Value → Memory → Except Trap Memory
  /-- The bytes of the next block, before anything is stored there. -/
  fresh : Memory → Nat → UInt8

def Op.step (context : Context) (frame : Frame) (memory : Memory) : Op → Except Trap (Frame × Memory)
  | .slot bytes =>
    let (memory, address) := memory.allocate ((Array.range bytes).map (context.fresh memory))
    .ok (frame.push address, memory)
  | op => (op.eval frame memory).map fun value => (frame.push value, memory)

def Code.run (context : Context) : Code → Frame → Memory → Except Trap Memory
  | done, _, memory => .ok memory
  | define op rest, frame, memory =>
    match op.step context frame memory with
    | .ok (frame, memory) => rest.run context frame memory
    | .error trap => .error trap
  | store arg ptr offset bytes rest, frame, memory =>
    match memory.store (frame.get ptr) offset bytes (frame.bits arg) with
    | .ok memory => rest.run context frame memory
    | .error trap => .error trap
  | call function args rest, frame, memory =>
    match context.call function (args.map frame.get) memory with
    | .ok memory => rest.run context frame memory
    | .error trap => .error trap
  | branch cond body rest, frame, memory =>
    if (frame.get cond).isSet then
      match body.run context frame memory with
      | .ok memory => rest.run context (frame.skip body.values) memory
      | .error trap => .error trap
    else rest.run context (frame.skip body.values) memory

end CircuitSim
