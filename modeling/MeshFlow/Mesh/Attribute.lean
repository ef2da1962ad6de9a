set_option autoImplicit false

/-!
# Vertex attributes

What a mesh can hold for each of its vertices, as a run of floats of fixed length.
-/
namespace MeshFlow

inductive Attribute where
  | position
  | normal
  | uv
  | color
  | tangent
  deriving DecidableEq

namespace Attribute

def optional : List Attribute := [normal, uv, color, tangent]

def stride : Attribute → Nat
  | position | normal => 3
  | uv => 2
  | color | tangent => 4

def label : Attribute → String
  | position => "position"
  | normal => "normal"
  | uv => "uv"
  | color => "color"
  | tangent => "tangent"

/-- What a vertex holds that never had the attribute: opaque white, or zeros. -/
def fill : Attribute → Float32
  | color => 1
  | _ => 0

end Attribute
end MeshFlow
