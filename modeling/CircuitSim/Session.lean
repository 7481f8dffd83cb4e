import CircuitSim.Circuit.Format
import CircuitSim.Sim.Simulator

/-!
A simulator for callers that pass bytes and want a status. Names are bytes up to the first zero and may be absent;
a result is put into a place of the caller's, which may be absent too. Without a simulator, every call fails.
-/
namespace CircuitSim

inductive Status
  | done
  | failed
  deriving DecidableEq, Repr, Inhabited

def Status.code : Status → Int
  | done => 0
  | failed => -1

abbrev Session := Option Simulator

namespace Session

def nameText? (name : Option Bytes) : Option String := do
  String.fromUTF8? ⟨(← name).takeWhile (· ≠ 0)⟩

/-- A text that ends nowhere early: zeros in it become blanks. -/
def withoutZeros (text : String) : String := text.map fun c => if c = '\x00' then ' ' else c

def simulate (platform : Platform) (text : String) : Except Fault Simulator := do
  let circuit ← Circuit.ofText text
  Simulator.ofCircuit platform circuit .builtin {} (← circuit.top)

def create (platform : Platform) (json : Bytes) : Session × Option String :=
  match String.fromUTF8? ⟨json⟩ with
  | none => (none, some "Invalid UTF-8 in JSON: not a text")
  | some text =>
    match simulate platform text with
    | .ok sim => (some sim, none)
    | .error fault => (none, some (withoutZeros fault.message))

def setInput (session : Session) (name : Option Bytes) (value : Nat) : Status × Session :=
  match session, nameText? name with
  | some sim, some name =>
    match sim.setInputWord name value with
    | .ok sim => (.done, some sim)
    | .error _ => (.failed, session)
  | _, _ => (.failed, session)

/-- The simulator after a step, or the session as it was. -/
def stepped (session : Session) (step : Simulator → Except Fault Simulator) : Status × Session :=
  match session with
  | some sim =>
    match step sim with
    | .ok sim => (.done, some sim)
    | .error _ => (.failed, session)
  | none => (.failed, none)

def compute (session : Session) : Status × Session := stepped session Simulator.compute

def update (session : Session) : Status × Session := stepped session Simulator.update

/-- The low 64 bits of an output of the last `compute`; `place` holds what was there before. -/
def getOutput (session : Session) (name : Option Bytes) (place : Option Nat) : Status × Option Nat :=
  match session, place, nameText? name with
  | some sim, some _, some name =>
    match sim.outputs.getWord (.name name) with
    | .ok value => (.done, some value)
    | .error _ => (.failed, place)
  | _, _, _ => (.failed, place)

/-- The instance names of a path with dots; empty names do not count. -/
def pathParts (path : String) : List String := (path.splitOn ".").filter (· ≠ "")

def getValue (session : Session) (path pin : Option Bytes) (place : Option Nat) :
    Status × Option Nat × Session :=
  match session, place, nameText? path, nameText? pin with
  | some sim, some _, some path, some pin =>
    match sim.getValue (pathParts path) pin with
    | .ok (value, sim) => (.done, some (value % 2 ^ 64), some sim)
    | .error _ => (.failed, place, session)
  | _, _, _, _ => (.failed, place, session)

def stateLength (session : Session) : Nat := (session.map (·.stateBytes)).getD 0

def state? (session : Session) : Option Bytes := session.map (·.stateData)

def listing? (session : Session) : Option (List String) :=
  session.map fun sim => Module.headings (sim.listing.map withoutZeros)

end Session

end CircuitSim
