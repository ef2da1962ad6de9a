import MeshFlow.Json.Decode
import MeshFlow.Value.Basic

set_option autoImplicit false

/-!
# Literals

Scalars, vectors and matrices are written in JSON as numbers and arrays of numbers. Reading goes by
the kind that is wanted; where that is still to be found, by the shape of the JSON.
-/
namespace MeshFlow.Value
open Space

def numbersToJson (xs : List Float32) : Json := .array (xs.map Json.ofFloat32)

/-- Meshes are no literals and are written as null. -/
def toJson : Value → Json
  | null | geometry _ => .null
  | int i => .ofInt i.toInt
  | float x => .ofFloat32 x
  | vector2 v => numbersToJson v.toList
  | vector3 v => numbersToJson v.toList
  | vector4 v => numbersToJson v.toList
  | matrix m => numbersToJson m.toList

def jsonFloat? : Json → Option Float32
  | .number n => some (Number.narrow n.toFloat)
  | _ => none

def jsonNumbers? : Json → Option (List Float32)
  | .number n => some [Number.narrow n.toFloat]
  | .array items => items.mapM jsonFloat?
  | _ => none

def jsonInt? : Json → Option Int32
  | .number n => n.toInt64?.map Int32.ofInt
  | _ => none

/-- A literal of a kind; null is a literal of every kind. Of an array the first number makes an
integer. -/
def ofJson? (k : Kind) (j : Json) : Option Value :=
  if j.isNull then some null
  else do
    let xs ← jsonNumbers? j
    match k with
    | .int => xs.head?.map fun x => int ((jsonInt? j).getD (Number.toInt32 x))
    | .matrix => (Matrix.ofList? xs).map matrix
    | _ => if k.components? = some xs.length then ofComponents? k xs else none

/-- The kind that the shape of a literal implies. -/
def impliedKind? : Json → Option Kind
  | .number (.int _) => some .int
  | .number (.float _) => some .float
  | .array items =>
    if items.length = 2 then some .vector2
    else if items.length = 3 then some .vector3
    else if items.length = 4 then some .vector4
    else if items.length = 16 then some .matrix
    else none
  | _ => none

def literal? (declared : Kind) (j : Json) : Option Value :=
  if declared.isMeta then (impliedKind? j).bind (ofJson? · j) else ofJson? declared j

end MeshFlow.Value
