import MeshFlow.Json.Basic
import MeshFlow.Space.Vector

set_option autoImplicit false

/-!
# Reading values out of JSON trees

A record is read from the members of an object, or from an array that lists its fields in order.
Members that are no fields are passed over; a field given twice is refused. Each field says itself
what its absence means.
-/
namespace MeshFlow.Json

def bool? : Json → Option Bool
  | bool b => some b
  | _ => none

def string? : Json → Option String
  | string s => some s
  | _ => none

/-- An integer from zero up to `greatest`; floats are refused even where they are whole. -/
def natUpTo? (greatest : Nat) : Json → Option Nat
  | number (.int i) => if 0 ≤ i ∧ i ≤ greatest then some i.toNat else none
  | _ => none

def uint32? (j : Json) : Option UInt32 := (j.natUpTo? 4294967295).map UInt32.ofNat

def uint64? (j : Json) : Option UInt64 := (j.natUpTo? 18446744073709551615).map UInt64.ofNat

def float32? : Json → Option Float32
  | number n => some n.toFloat32
  | _ => none

def list? {α : Type} (item : Json → Option α) : Json → Option (List α)
  | array items => items.mapM item
  | _ => none

def vec3? (j : Json) : Option Space.Vec3 := do
  Space.Vec3.ofList? (← j.list? float32?)

/-- A name out of a table, written as it is or as the only key of an object that maps it to null. -/
def name? {α : Type} (table : List (String × α)) : Json → Option α
  | string s => table.lookup s
  | object [(s, null)] => table.lookup s
  | _ => none

/-- The fields of a record, one entry a name; absent ones are `none`. -/
def fields? (names : List String) : Json → Option (List (Option Json))
  | object members => names.mapM fun name =>
    match members.filter (·.1 == name) with
    | [] => some none
    | [(_, value)] => some (some value)
    | _ => none
  | array items =>
    if items.length ≤ names.length then
      some (items.map some ++ List.replicate (names.length - items.length) none)
    else none
  | _ => none

def required {α : Type} (read : Json → Option α) (field : Option Json) : Option α :=
  field.bind read

def orElse {α : Type} (fallback : α) (read : Json → Option α) : Option Json → Option α
  | none => some fallback
  | some j => read j

def optional {α : Type} (read : Json → Option α) : Option Json → Option (Option α)
  | none => some none
  | some null => some none
  | some j => (read j).map some

end MeshFlow.Json
