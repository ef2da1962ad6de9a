import MeshFlow.Block.Properties
import MeshFlow.Proofs.Rounding

set_option autoImplicit false

/-!
# Literals that come back

A finite literal is written as JSON that reads back as the same literal, both where its kind is
known and where the shape of the JSON has to tell it. A kind that is still to be found is the
exception: read by the name of such a kind, nothing but null is a literal.
-/
namespace MeshFlow

theorem mapM_map_eq_some {α β : Type} {write : α → β} {read : β → Option α} {xs : List α}
    (h : ∀ x ∈ xs, read (write x) = some x) : (xs.map write).mapM read = some xs := by
  induction xs with
  | nil => rfl
  | cons x rest ih =>
    have first := h x (List.mem_cons_self ..)
    have others := ih fun y hy => h y (List.mem_cons_of_mem _ hy)
    rw [List.map_cons, List.mapM_cons, first, others]
    rfl

def AllFinite (xs : List Float32) : Prop := ∀ x ∈ xs, x.isFinite = true

namespace Json

theorem ofFloat32_of_finite {x : Float32} (finite : x.isFinite = true) :
    ofFloat32 x = number (.float (Number.widen x)) := by
  rw [ofFloat32, ofFloat, if_pos (Number.isFinite_widen finite)]

theorem float32?_ofFloat32 {x : Float32} (finite : x.isFinite = true) :
    (ofFloat32 x).float32? = some x := by
  rw [ofFloat32_of_finite finite, float32?, Number.toFloat32, Number.narrow_widen finite]

theorem list?_floats {xs : List Float32} (finite : AllFinite xs) :
    list? float32? (.array (xs.map ofFloat32)) = some xs :=
  mapM_map_eq_some fun x hx => float32?_ofFloat32 (finite x hx)

end Json

def Mesh.floats (m : Mesh) : List Float32 :=
  m.positions ++ m.normals.getD [] ++ m.uvs.getD [] ++ m.colors.getD [] ++ m.tangents.getD []

namespace Value

def floats : Value → List Float32
  | null | int _ => []
  | float x => [x]
  | vector2 v => v.toList
  | vector3 v => v.toList
  | vector4 v => v.toList
  | matrix m => m.toList
  | geometry m => m.floats

/-- Numbers, vectors and matrices, which have a notation as JSON. -/
def IsWritten : Value → Prop
  | null | geometry _ => False
  | _ => True

theorem jsonFloat?_ofFloat32 {x : Float32} (finite : x.isFinite = true) :
    jsonFloat? (.ofFloat32 x) = some x := by
  rw [Json.ofFloat32_of_finite finite, jsonFloat?, Json.Number.toFloat, Number.narrow_widen finite]

theorem jsonNumbers?_numbersToJson (xs : List Float32) (finite : AllFinite xs) :
    jsonNumbers? (numbersToJson xs) = some xs :=
  mapM_map_eq_some fun x hx => jsonFloat?_ofFloat32 (finite x hx)

theorem jsonNumbers?_ofFloat32 {x : Float32} (finite : x.isFinite = true) :
    jsonNumbers? (.ofFloat32 x) = some [x] := by
  rw [Json.ofFloat32_of_finite finite, jsonNumbers?, Json.Number.toFloat,
    Number.narrow_widen finite]

theorem isNull_toJson {v : Value} (written : v.IsWritten) (finite : AllFinite v.floats) :
    v.toJson.isNull = false := by
  cases v with
  | null | geometry _ => exact written.elim
  | float x =>
    rw [toJson, Json.ofFloat32_of_finite (finite x (List.mem_singleton_self x))]
    rfl
  | _ => rfl

theorem jsonInt?_ofInt (i : Int32) : jsonInt? (.ofInt i.toInt) = some i := by
  have bound : i.toInt ≤ 9223372036854775807 := by
    have := i.toInt_lt
    omega
  rw [Json.ofInt, jsonInt?, Json.Number.toInt64?, if_pos bound, Option.map_some, Int32.ofInt_toInt]

theorem ofJson?_toJson {v : Value} {k : Kind} (kind : v.kind? = some k) (written : v.IsWritten)
    (finite : AllFinite v.floats) : ofJson? k v.toJson = some v := by
  have notNull := isNull_toJson written finite
  rw [ofJson?, notNull]
  cases v with
  | null | geometry _ => exact written.elim
  | int i =>
    cases kind
    have int := jsonInt?_ofInt i
    simp only [toJson, int]
    rfl
  | float x =>
    cases kind
    rw [toJson, jsonNumbers?_ofFloat32 (finite x (List.mem_singleton_self x))]
    rfl
  | vector2 v | vector3 v | vector4 v =>
    cases kind
    rw [toJson, jsonNumbers?_numbersToJson v.toList finite]
    rfl
  | matrix m =>
    cases kind
    rw [toJson, jsonNumbers?_numbersToJson m.toList finite]
    rfl

theorem impliedKind?_toJson {v : Value} (written : v.IsWritten) (finite : AllFinite v.floats) :
    impliedKind? v.toJson = v.kind? := by
  cases v with
  | null | geometry _ => exact written.elim
  | float x =>
    rw [toJson, Json.ofFloat32_of_finite (finite x (List.mem_singleton_self x))]
    rfl
  | _ => rfl

/-- A kind that an input declares and a literal that is set on it go together: a concrete kind
takes values of that kind, and one that is still to be found takes numbers and matrices. -/
def Fits (v : Value) (declared : Kind) : Prop :=
  v.IsWritten ∧ (declared.isMeta = false → v.kind? = some declared)

theorem literal?_toJson {v : Value} {declared : Kind} (fits : v.Fits declared)
    (finite : AllFinite v.floats) : literal? declared v.toJson = some v := by
  obtain ⟨written, same⟩ := fits
  rw [literal?]
  split
  · rw [impliedKind?_toJson written finite]
    cases hk : v.kind? with
    | none => cases v <;> first | exact written.elim | cases hk
    | some k => exact ofJson?_toJson hk written finite
  · rename_i concrete
    exact ofJson?_toJson (same (by simpa using concrete)) written finite

theorem ofJson?_of_isMeta {k : Kind} (unknown : k.isMeta = true) {j : Json}
    (notNull : j.isNull = false) : ofJson? k j = none := by
  rw [ofJson?, notNull]
  cases k with
  | autoDetect | basedOnInput => cases jsonNumbers? j <;> rfl
  | _ => cases unknown

end Value
end MeshFlow
