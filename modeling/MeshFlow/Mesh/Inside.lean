import MeshFlow.Mesh.Basic

set_option autoImplicit false

/-!
# Inside a closed surface

A point is inside when a ray along x crosses the surface an odd number of times.
-/
namespace MeshFlow
open Space

def crossings (surface : List Triangle) (point : Vec3) : Nat :=
  surface.countP fun t => (t.rayDistance? point Vec3.unitX).isSome

def isInside (surface : List Triangle) (point : Vec3) : Bool := crossings surface point % 2 == 1

namespace Mesh

def surface (m : Mesh) : List Triangle := m.triangles.map (·.2)

def containsPoint (m : Mesh) (point : Vec3) : Bool := isInside m.surface point

end Mesh
end MeshFlow
