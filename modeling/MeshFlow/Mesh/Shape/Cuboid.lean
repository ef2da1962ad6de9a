import MeshFlow.Mesh.Builder

set_option autoImplicit false

/-!
# Boxes

A box about the origin. Each of its six sides has four vertices of its own, so that normals are
flat.
-/
namespace MeshFlow
open Space

structure Cuboid where
  width : Float32 := 1
  height : Float32 := 1
  depth : Float32 := 1

namespace Cuboid

def cube (size : Float32) : Cuboid := ⟨size, size, size⟩

/-- The corners of a side, counter-clockwise from outside, and its normal. -/
structure Side where
  a : Vec3
  b : Vec3
  c : Vec3
  d : Vec3
  normal : Vec3

def sides (box : Cuboid) : List Side :=
  let x := box.width / 2
  let y := box.height / 2
  let z := box.depth / 2
  [⟨⟨-x, -y, z⟩, ⟨x, -y, z⟩, ⟨x, y, z⟩, ⟨-x, y, z⟩, ⟨0, 0, 1⟩⟩,
    ⟨⟨x, -y, -z⟩, ⟨-x, -y, -z⟩, ⟨-x, y, -z⟩, ⟨x, y, -z⟩, ⟨0, 0, -1⟩⟩,
    ⟨⟨x, -y, z⟩, ⟨x, -y, -z⟩, ⟨x, y, -z⟩, ⟨x, y, z⟩, ⟨1, 0, 0⟩⟩,
    ⟨⟨-x, -y, -z⟩, ⟨-x, -y, z⟩, ⟨-x, y, z⟩, ⟨-x, y, -z⟩, ⟨-1, 0, 0⟩⟩,
    ⟨⟨-x, y, z⟩, ⟨x, y, z⟩, ⟨x, y, -z⟩, ⟨-x, y, -z⟩, ⟨0, 1, 0⟩⟩,
    ⟨⟨-x, -y, -z⟩, ⟨x, -y, -z⟩, ⟨x, -y, z⟩, ⟨-x, -y, z⟩, ⟨0, -1, 0⟩⟩]

def Side.vertices (s : Side) : List Vertex :=
  [⟨s.a, s.normal, ⟨0, 0⟩⟩, ⟨s.b, s.normal, ⟨1, 0⟩⟩, ⟨s.c, s.normal, ⟨1, 1⟩⟩,
    ⟨s.d, s.normal, ⟨0, 1⟩⟩]

def faces : List Face :=
  (List.range 6).flatMap fun side =>
    Face.quad (4 * side) (4 * side + 1) (4 * side + 2) (4 * side + 3)

def toMesh (box : Cuboid) : Mesh := Mesh.ofSurface (box.sides.flatMap Side.vertices) faces

end Cuboid
end MeshFlow
