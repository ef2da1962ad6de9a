set_option autoImplicit false

/-!
# Kinds of values

Eight kinds that a value can have, and two that only a socket can declare: a detected kind comes
from what the socket is connected to, a derived one from another input of the same block.
-/
namespace MeshFlow

inductive Kind where
  | int
  | float
  | vector2
  | vector3
  | vector4
  | matrix
  | geometry
  | texture
  | autoDetect
  | basedOnInput
  deriving DecidableEq

namespace Kind

def table : List (String × Kind) :=
  [("Int", int), ("Float", float), ("Vector2", vector2), ("Vector3", vector3),
    ("Vector4", vector4), ("Matrix", matrix), ("Geometry", geometry), ("Texture", texture),
    ("AutoDetect", autoDetect), ("BasedOnInput", basedOnInput)]

def name : Kind → String
  | int => "Int"
  | float => "Float"
  | vector2 => "Vector2"
  | vector3 => "Vector3"
  | vector4 => "Vector4"
  | matrix => "Matrix"
  | geometry => "Geometry"
  | texture => "Texture"
  | autoDetect => "AutoDetect"
  | basedOnInput => "BasedOnInput"

/-- No value has this kind; it stands for one that is still to be found. -/
def isMeta : Kind → Bool
  | autoDetect | basedOnInput => true
  | _ => false

/-- The floats of a scalar or vector. -/
def components? : Kind → Option Nat
  | int | float => some 1
  | vector2 => some 2
  | vector3 => some 3
  | vector4 => some 4
  | _ => none

def isNumeric (k : Kind) : Bool := k.components?.isSome

def isVector : Kind → Bool
  | vector2 | vector3 | vector4 => true
  | _ => false

def nameOrNull : Option Kind → String
  | some k => k.name
  | none => "null"

end Kind
end MeshFlow
