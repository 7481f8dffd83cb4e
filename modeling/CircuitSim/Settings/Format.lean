import CircuitSim.Settings
import CircuitSim.Fault
import CircuitSim.Toml.Document

/-!
The TOML form of the settings. Every entry may be left out, and entries of other names are passed over. A choice
is written as its name, or as a table with this name as its only key and nothing below it.
-/
namespace CircuitSim

namespace Settings

def bool? : Toml → Option Bool
  | .bool value => some value
  | _ => none

def isEmpty : Toml → Bool
  | .array items => items.isEmpty
  | .table _ entries => entries.isEmpty
  | _ => false

def choice? : Toml → Option String
  | .text name => some name
  | .table _ [(name, value)] => if isEmpty value then some name else none
  | _ => none

def entry {α : Type} (entries : Toml.Entries) (key : String) (default : α) (read : Toml → Option α) :
    Option α :=
  match entries.lookup key with
  | none => some default
  | some value => read value

def ofEntries (entries : Toml.Entries) : Option Settings := do
  let start : Settings := {}
  let optLevel ← entry entries "opt_level" start.optLevel fun value => (choice? value).bind OptLevel.ofName?
  let verify ← entry entries "verify" start.verify bool?
  let layout ← entry entries "layout" start.layout fun value => (choice? value).bind Rules.ofName?
  let taps ← entry entries "debug_taps" start.taps bool?
  return { optLevel, verify, layout, taps }

def ofText (text : String) : Except Fault Settings :=
  match (Toml.ofText text).bind ofEntries with
  | some settings => .ok settings
  | none => .error .settings

def ofFile (contents : ByteArray) : Except Fault Settings :=
  match String.fromUTF8? contents with
  | some text => ofText text
  | none => .error .file

end Settings

end CircuitSim
