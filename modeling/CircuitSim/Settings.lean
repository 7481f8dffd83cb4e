import CircuitSim.Record.Layout

/-!
How a circuit is compiled. Only the layout of records and whether taps are compiled change what a simulator
answers.
-/
namespace CircuitSim

inductive OptLevel
  | none
  | speed
  | speedAndSize
  deriving DecidableEq, Repr, Inhabited

structure Settings where
  optLevel : OptLevel := .speed
  verify : Bool := true
  layout : Rules := .natural
  taps : Bool := true
  deriving DecidableEq, Repr, Inhabited

def OptLevel.name : OptLevel → String
  | .none => "none"
  | .speed => "speed"
  | .speedAndSize => "speed_and_size"

def OptLevel.ofName? : String → Option OptLevel
  | "none" => some .none
  | "speed" => some .speed
  | "speed_and_size" => some .speedAndSize
  | _ => Option.none

def Rules.name : Rules → String
  | .natural => "natural"
  | .packed => "packed"
  | .bitPacked => "bit_packed"

def Rules.ofName? : String → Option Rules
  | "natural" => some .natural
  | "packed" => some .packed
  | "bit_packed" => some .bitPacked
  | _ => none

end CircuitSim
