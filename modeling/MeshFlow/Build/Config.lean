import MeshFlow.Json.Decode
import MeshFlow.Json.Reader
import MeshFlow.Json.Writer
import MeshFlow.Random.Generator

set_option autoImplicit false

/-!
# Configurations of a build pass

A configuration is read from a JSON record of two fields, both of which may be left out. Where the
random numbers of a pass without a seed start is not in the record.
-/
namespace MeshFlow

structure BuildConfig where
  /-- Where the random generator starts, if it is told. -/
  seed : Option UInt64 := none
  verbose : Bool := false
  /-- What the surroundings supply where there is no seed. -/
  unseeded : Random.Generator := .ofSeed 0

namespace BuildConfig
open Json

def generator (c : BuildConfig) : Random.Generator := (c.seed.map .ofSeed).getD c.unseeded

def toJson (c : BuildConfig) : Json :=
  .object [("seed", (c.seed.map fun s => .ofNat s.toNat).getD .null), ("verbose", .bool c.verbose)]

def fieldNames : List String := ["seed", "verbose"]

def ofJson? (j : Json) : Option BuildConfig := do
  match ← j.fields? fieldNames with
  | [seed, verbose] =>
    return { seed := ← optional uint64? seed, verbose := ← orElse false bool? verbose }
  | _ => none

def ofText? (text : String) : Option BuildConfig := decode? (.fields fieldNames) ofJson? text

end BuildConfig
end MeshFlow
