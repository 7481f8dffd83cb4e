import CircuitSim.Code.Basic

/-!
Code as lines of text, one an operation. A line that yields a value starts with its number.
-/
namespace CircuitSim

def BinaryOp.name : BinaryOp → String
  | .add => "add"
  | .sub => "sub"
  | .mul => "mul"
  | .and => "and"
  | .or => "or"
  | .xor => "xor"

def CompareOp.name : CompareOp → String
  | .eq => "eq"
  | .ne => "ne"

def Op.text : Op → String
  | .const width n => s!"const.{width} {n}"
  | .binary op width a b => s!"{op.name}.{width} v{a} v{b}"
  | .not width a => s!"not.{width} v{a}"
  | .compare op width a b => s!"{op.name}.{width} v{a} v{b}"
  | .select width cond a b => s!"select.{width} v{cond} v{a} v{b}"
  | .shl width a amount => s!"shl.{width} v{a} v{amount}"
  | .lshr width a amount => s!"lshr.{width} v{a} v{amount}"
  | .urem width a divisor => s!"urem.{width} v{a} {divisor}"
  | .resize a source target => s!"resize v{a} {source} {target}"
  | .load ptr distance bytes => s!"load v{ptr} {distance} {bytes}"
  | .offset ptr distance => s!"offset v{ptr} {distance}"
  | .index width ptr distance => s!"index.{width} v{ptr} v{distance}"
  | .slot bytes => s!"slot {bytes}"
  | .param i => s!"param {i}"

def Code.lines : Code → Nat → List String
  | done, _ => []
  | define op rest, next => s!"v{next} = {op.text}" :: rest.lines (next + 1)
  | store arg ptr offset bytes rest, next => s!"store v{arg} v{ptr} {offset} {bytes}" :: rest.lines next
  | call function args rest, next =>
    " ".intercalate (s!"call {function}" :: args.map fun a => s!"v{a}") :: rest.lines next
  | branch cond body rest, next =>
    s!"if v{cond}" :: (body.lines next ++ "end" :: rest.lines (next + body.values))

end CircuitSim
