import CircuitSim.Width

/-!
What can go wrong when a circuit is read, compiled or driven. A fault records its cause; `message` is the
one place where a cause becomes text, and `category` says who has to act on it.
-/
namespace CircuitSim

/-- Where a fault comes from: the circuit, the caller of a simulator, or buffers that do not fit the code. -/
inductive Category
  | build
  | usage
  | runtime
  deriving DecidableEq, Repr

/-- Why a text is not a circuit: broken notation, an early end, the wrong type, or no text at all. -/
inductive ReadFault
  | malformed
  | truncated
  | mistyped
  | unreadable
  deriving DecidableEq, Repr, Inhabited

inductive ArgumentFault
  | tooLarge
  | exceeds (bits : Nat)
  | noWords
  | memoryTooLarge
  | other (text : String)
  deriving DecidableEq, Repr

/-- Why a circuit makes no sense, whatever its primitives are. -/
inductive Defect
  | duplicateDefinition (name : String)
  | noDefinitions
  | recursive (name : String) (chain : List String)
  | duplicatePort (port definition : String)
  | zeroWidthPort (port definition : String)
  | instanceName (name definition : String)
  | duplicateInstance (name definition : String)
  | notASource (pin definition : String)
  | notASink (pin definition : String)
  | duplicateMember (name : String)
  | other (text : String)
  deriving DecidableEq, Repr

/-- Why a module under construction refuses a declaration or a body. -/
inductive ModuleFault
  | undeclared (function : Nat)
  | conflicting (name : String)
  | imported (name : String)
  | redefined (name : String)
  | other (text : String)
  deriving DecidableEq, Repr

/-- Why the program stops: an access leaves memory, a divisor is zero, a call finds no function or no stack, or
something is looked up that is not there. -/
inductive Trap
  | outside
  | divideByZero
  | noFunction
  | tooDeep
  | missing
  deriving DecidableEq, Repr

inductive Fault
  | unknownKind (kind place : String)
  | missingArgument (kind place argument : String)
  | invalidArgument (kind place argument : String) (why : ArgumentFault)
  | unsupportedWidth (what : String) (width : Nat)
  | unknownDefinition (name : String)
  | invalidCircuit (why : Defect)
  | unknownPin (pin definition : String)
  | multipleDrivers (pin : String)
  | undriven (pin : String)
  | netWidth (source sink : String) (sourceWidth sinkWidth : Nat)
  | combinationalCycle (places : List String)
  | unresolvedSymbol (name : String)
  | duplicateSymbol (name : String)
  | unknownModule (handle : Nat)
  | codegen (why : ModuleFault)
  | unknownInput (name : String)
  | unknownMember (key : String)
  | valueWidth (name : String) (width bits : Nat)
  | unknownTap (path pin : String)
  | tapsDisabled
  | bufferSize (buffer : String) (expected actual : Nat)
  | trap (why : Trap)
  | parse (why : ReadFault)
  | settings
  | file
  deriving DecidableEq, Repr

def ReadFault.message : ReadFault → String
  | .malformed => "malformed text"
  | .truncated => "unexpected end of text"
  | .mistyped => "unexpected type of value"
  | .unreadable => "unreadable text"

def ArgumentFault.message : ArgumentFault → String
  | .tooLarge => "too large"
  | .exceeds bits => s!"does not fit in {bits} bits"
  | .noWords => "must be at least 1"
  | .memoryTooLarge => "memory too large"
  | .other text => text

def Defect.message : Defect → String
  | .duplicateDefinition name => s!"duplicate definition `{name}`"
  | .noDefinitions => "circuit has no definitions"
  | .recursive name chain => s!"recursive instantiation of `{name}` via " ++ " -> ".intercalate chain
  | .duplicatePort port definition => s!"duplicate port `{port}` in `{definition}`"
  | .zeroWidthPort port definition => s!"port `{port}` of `{definition}` has zero width"
  | .instanceName name definition => s!"invalid instance name `{name}` in `{definition}`"
  | .duplicateInstance name definition => s!"duplicate instance `{name}` in `{definition}`"
  | .notASource pin definition => s!"pin `{pin}` in `{definition}` cannot be a net source"
  | .notASink pin definition => s!"pin `{pin}` in `{definition}` cannot be a net sink"
  | .duplicateMember name => s!"duplicate record member `{name}`"
  | .other text => text

def Trap.message : Trap → String
  | .outside => "access outside memory"
  | .divideByZero => "division by zero"
  | .noFunction => "call of no function"
  | .tooDeep => "calls nested too deep"
  | .missing => "index out of range"

def ModuleFault.message : ModuleFault → String
  | .undeclared function => s!"function {function} was not declared"
  | .conflicting name => s!"conflicting signatures for `{name}`"
  | .imported name => s!"import `{name}` cannot be defined"
  | .redefined name => s!"`{name}` is defined twice"
  | .other text => text

namespace Fault

def message : Fault → String
  | .unknownKind kind place => s!"unknown primitive kind `{kind}` (instance `{place}`)"
  | .missingArgument kind place argument =>
    s!"primitive `{kind}` (instance `{place}`) is missing generator argument `{argument}`"
  | .invalidArgument kind place argument why =>
    s!"primitive `{kind}` (instance `{place}`) has invalid generator argument `{argument}`: " ++ why.message
  | .unsupportedWidth what width => s!"unsupported width {width} for {what}"
  | .unknownDefinition name => s!"unknown definition `{name}`"
  | .invalidCircuit why => "invalid circuit: " ++ why.message
  | .unknownPin pin definition => s!"unknown pin `{pin}` in definition `{definition}`"
  | .multipleDrivers pin => s!"pin `{pin}` has more than one driver"
  | .undriven pin => s!"pin `{pin}` is not driven"
  | .netWidth source sink sourceWidth sinkWidth =>
    s!"net `{source}` -> `{sink}` connects a {sourceWidth}-bit source to a {sinkWidth}-bit sink"
  | .combinationalCycle places => "combinational cycle through " ++ ", ".intercalate places
  | .unresolvedSymbol name => s!"unresolved symbol `{name}`"
  | .duplicateSymbol name => s!"symbol `{name}` is already defined by another module"
  | .unknownModule handle => s!"unknown module handle {handle}"
  | .codegen why => "code generation failed: " ++ why.message
  | .unknownInput name => s!"unknown input `{name}`"
  | .unknownMember key => s!"unknown member `{key}`"
  | .valueWidth name width bits => s!"value for `{name}` needs {bits} bits but the port is {width} bits wide"
  | .unknownTap path pin => s!"no debug tap for `{pin}` at instance path `{path}`"
  | .tapsDisabled => "debug taps were not compiled into this simulator"
  | .bufferSize buffer expected actual =>
    s!"{buffer} buffer is {actual} bytes but compiled code expects {expected}"
  | .trap why => "the program stopped: " ++ why.message
  | .parse why => "failed to parse circuit JSON: " ++ why.message
  | .settings => "failed to parse configuration: not a settings file"
  | .file => "IO error: file cannot be read"

def category : Fault → Category
  | .unknownInput _ | .unknownMember _ | .valueWidth .. | .unknownTap .. | .tapsDisabled => .usage
  | .bufferSize .. | .trap _ => .runtime
  | _ => .build

end Fault

/-- One value holds between 1 and 128 bits. -/
def checkWidth (what : String) (width : Nat) : Except Fault Unit :=
  if width = 0 ∨ Width.maxNative < width then .error (.unsupportedWidth what width) else .ok ()

theorem checkWidth_eq_ok_iff {what : String} {width : Nat} :
    checkWidth what width = .ok () ↔ 0 < width ∧ width ≤ Width.maxNative := by
  unfold checkWidth
  split <;> simp_all <;> omega

end CircuitSim
