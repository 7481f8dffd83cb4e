import CircuitSim.Flat.Graph
import CircuitSim.Record.Basic

/-!
The record of captured values: one member for each tap of a graph, in order. A tap is looked up by instance path
and pin, through the one name that joins them with dots.
-/
namespace CircuitSim

structure TapRecord where
  path : List String
  pin : String
  width : Nat
  definition : Nat
  offset : Nat
  deriving DecidableEq, Repr, Inhabited

def tapName (path : List String) (pin : String) : String :=
  path.foldr (fun part rest => part ++ "." ++ rest) pin

def TapRecord.name (tap : TapRecord) : String := tapName tap.path tap.pin

structure Taps where
  records : List TapRecord
  region : Record
  deriving DecidableEq, Repr, Inhabited

namespace Taps

def ofGraph (rules : Rules) (graph : Graph) : Except Fault Taps := do
  let region ← Record.ofMembers rules (graph.taps.map fun tap => (tapName tap.path tap.pin, tap.width))
  let records := (graph.taps.zip region.layout.members).map fun (tap, member) =>
    ⟨tap.path, tap.pin, tap.width, tap.definition, member.offset⟩
  return ⟨records, region⟩

def find? (taps : Taps) (path : List String) (pin : String) : Option Nat :=
  taps.region.layout.position? (tapName path pin)

def of (taps : Taps) (definition : Nat) : List TapRecord :=
  taps.records.filter (·.definition = definition)

def size (taps : Taps) : Nat := taps.region.layout.size

end Taps

end CircuitSim
