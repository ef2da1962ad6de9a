import MeshFlow.Mesh.Basic
import MeshFlow.Space.Matrix
import MeshFlow.Value.Kind

set_option autoImplicit false

/-!
# Values

What an output yields when it is read. A null value has no kind; it is what incomplete parts of a
graph yield. `coerce?` adapts a value to a kind: scalars spread over vectors and turn into each
other, vectors are filled with zeros or cut.
-/
namespace MeshFlow
open Space

inductive Value where
  | null
  | int (i : Int32)
  | float (x : Float32)
  | vector2 (v : Vec2)
  | vector3 (v : Vec3)
  | vector4 (v : Vec4)
  | matrix (m : Matrix)
  | geometry (m : Mesh)

namespace Value

instance : Inhabited Value := ⟨null⟩

def ofNat (n : Nat) : Value := int (Int32.ofInt n)

def kind? : Value → Option Kind
  | null => none
  | int _ => some .int
  | float _ => some .float
  | vector2 _ => some .vector2
  | vector3 _ => some .vector3
  | vector4 _ => some .vector4
  | matrix _ => some .matrix
  | geometry _ => some .geometry

def isNull : Value → Bool
  | null => true
  | _ => false

def components? : Value → Option (List Float32)
  | int i => some [Number.ofInt i.toInt]
  | float x => some [x]
  | vector2 v => some v.toList
  | vector3 v => some v.toList
  | vector4 v => some v.toList
  | _ => none

def component (xs : List Float32) (i : Nat) : Float32 := xs.getD i 0

/-- The scalar or vector of a kind with the given components: missing ones are zero and surplus
ones are left out. -/
def ofComponents? (k : Kind) (xs : List Float32) : Option Value :=
  match k with
  | .int => some (int (Number.toInt32 (component xs 0)))
  | .float => some (float (component xs 0))
  | .vector2 => some (vector2 ⟨component xs 0, component xs 1⟩)
  | .vector3 => some (vector3 ⟨component xs 0, component xs 1, component xs 2⟩)
  | .vector4 =>
    some (vector4 ⟨component xs 0, component xs 1, component xs 2, component xs 3⟩)
  | _ => none

def spread? (k : Kind) (x : Float32) : Option Value := ofComponents? k [x, x, x, x]

/-- The value adapted to a kind. Null adapts to nothing, and every other value to a kind that is
still to be found. -/
def coerce? (v : Value) (k : Kind) : Option Value :=
  match v with
  | null => none
  | int i =>
    if k.isMeta ∨ k = .int then some v else spread? k (Number.ofInt i.toInt)
  | float x => if k.isMeta ∨ k = .float then some v else spread? k x
  | vector2 u => if k.isMeta then some v else if k.isVector then ofComponents? k u.toList else none
  | vector3 u => if k.isMeta then some v else if k.isVector then ofComponents? k u.toList else none
  | vector4 u => if k.isMeta then some v else if k.isVector then ofComponents? k u.toList else none
  | matrix _ => if k.isMeta ∨ k = .matrix then some v else none
  | geometry _ => if k.isMeta ∨ k = .geometry then some v else none

/-! ## Reading as one kind -/

structure TypeError where
  expected : Kind
  got : Option Kind
  deriving DecidableEq

def TypeError.message (e : TypeError) : String :=
  s!"type error: expected {e.expected.name}, got {Kind.nameOrNull e.got}"

def asKind (v : Value) (k : Kind) : Except TypeError Value :=
  if v.kind? = some k then .ok v else .error ⟨k, v.kind?⟩

def int? : Value → Option Int32
  | int i => some i
  | _ => none

def float? : Value → Option Float32
  | float x => some x
  | _ => none

def vec3? : Value → Option Vec3
  | vector3 v => some v
  | _ => none

def vec4? : Value → Option Vec4
  | vector4 v => some v
  | _ => none

def matrix? : Value → Option Matrix
  | matrix m => some m
  | _ => none

def mesh? : Value → Option Mesh
  | geometry m => some m
  | _ => none

def ofMesh? : Option Mesh → Value
  | some m => geometry m
  | none => null

end Value
end MeshFlow
