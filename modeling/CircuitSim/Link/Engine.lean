import CircuitSim.Code.Run
import CircuitSim.Link.Module

/-!
Linked modules. Adding a module binds each of its functions once and for all: to its own body, else to what an
earlier module exports under that name, else to the host. The table of symbols holds what the loaded modules
export, and a name is exported by at most one of them. The platform that the engine runs on is given: the functions
of the host, and the backend of the modules that the engine creates.
-/
namespace CircuitSim

/-- The process around the engine. -/
structure Host where
  /-- The address of a function of the process. -/
  symbol? : String → Option Nat
  /-- The effect of the function at an address. -/
  call : Nat → List Value → Memory → Except Trap Memory
  /-- The bytes on the stack where the next block comes to lie. -/
  fresh : Memory → Nat → UInt8

instance : Inhabited Host := ⟨⟨fun _ => none, fun _ _ _ => .error .noFunction, fun _ _ => 0⟩⟩

structure Platform where
  host : Host
  backend : Backend
  deriving Inhabited

/-- What a name stands for: a function of a loaded module, or one of the host. -/
inductive Target
  | loaded (handle function : Nat)
  | host (address : Nat)
  deriving DecidableEq, Repr

structure LoadedFunction where
  code : Option Code
  target : Option Target
  deriving DecidableEq, Repr, Inhabited

structure LoadedModule where
  name : String
  functions : List LoadedFunction
  exports : List String
  deriving DecidableEq, Repr, Inhabited

structure Engine where
  platform : Platform
  symbols : List (String × Target) := []
  modules : List (Nat × LoadedModule) := []
  /-- The handle of the next module; handles are never used again. -/
  next : Nat := 0
  deriving Inhabited

namespace Engine

def empty (platform : Platform) : Engine := { platform }

/-- An empty module, for the backend of the platform. -/
def create (engine : Engine) (name : String) : Module := { name, backend := engine.platform.backend }

def find? (engine : Engine) (name : String) : Option Target :=
  match engine.symbols.lookup name with
  | some target => some target
  | none => (engine.platform.host.symbol? name).map .host

def lookup (engine : Engine) (name : String) : Except Fault Target :=
  match engine.find? name with
  | some target => .ok target
  | none => .error (.unresolvedSymbol name)

def exported (engine : Engine) (name : String) : Bool := (engine.symbols.lookup name).isSome

/-- Why a module cannot be added: its first import that nothing provides, else its first export that is taken. -/
def refusal? (engine : Engine) (m : Module) : Option Fault :=
  match m.imports.find? fun name => (engine.find? name).isNone with
  | some name => some (.unresolvedSymbol name)
  | none => (m.exports.find? fun (name, _) => engine.exported name).map fun (name, _) => .duplicateSymbol name

def bind (engine : Engine) (id : Nat) (function : Function) : LoadedFunction :=
  ⟨function.body,
    match function.body with
    | some _ => some (.loaded engine.next id)
    | none => engine.find? function.name⟩

def load (engine : Engine) (m : Module) : LoadedModule :=
  ⟨m.name, m.functions.zipIdx.map fun (function, id) => engine.bind id function, m.exports.map (·.1)⟩

/-- A later entry for a name takes the place of an earlier one. -/
def enter (symbols : List (String × Target)) (name : String) (target : Target) : List (String × Target) :=
  (name, target) :: symbols.filter (·.1 ≠ name)

def add (engine : Engine) (m : Module) : Except Fault (Nat × Engine) :=
  match engine.refusal? m with
  | some fault => .error fault
  | none =>
    .ok (engine.next, { engine with
      symbols := m.exports.foldl (fun symbols (name, id) => enter symbols name (.loaded engine.next id))
        engine.symbols
      modules := (engine.next, engine.load m) :: engine.modules
      next := engine.next + 1 })

def remove (engine : Engine) (handle : Nat) : Except Fault Engine :=
  match engine.modules.lookup handle with
  | none => .error (.unknownModule handle)
  | some loaded =>
    .ok { engine with
      symbols := engine.symbols.filter (·.1 ∉ loaded.exports)
      modules := engine.modules.filter (·.1 ≠ handle) }

def count (engine : Engine) : Nat := engine.modules.length

def run (engine : Engine) : Nat → Target → List Value → Memory → Except Trap Memory
  | 0, _, _, _ => .error .tooDeep
  | _ + 1, .host address, args, memory => engine.platform.host.call address args memory
  | depth + 1, .loaded handle id, args, memory =>
    match engine.modules.lookup handle with
    | none => .error .noFunction
    | some loaded =>
      match (loaded.functions.getD id default).code with
      | none => .error .noFunction
      | some code =>
        let call (callee : Nat) (args : List Value) (memory : Memory) : Except Trap Memory :=
          match (loaded.functions.getD callee default).target with
          | some target => engine.run depth target args memory
          | none => .error .noFunction
        code.run ⟨call, engine.platform.host.fresh⟩ (.ofParams args) memory

/-- Calls nest this deep before the stack is used up. -/
def stackDepth : Nat := 1000000

def invoke (engine : Engine) (name : String) (args : List Value) (memory : Memory) : Except Trap Memory :=
  match engine.find? name with
  | some target => engine.run stackDepth target args memory
  | none => .error .noFunction

end Engine

end CircuitSim
