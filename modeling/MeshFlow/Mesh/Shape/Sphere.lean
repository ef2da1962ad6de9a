import MeshFlow.Mesh.Builder

set_option autoImplicit false

/-!
# Spheres

A sphere about the origin on a grid of rings and segments: ring 0 is the north pole, the last ring
the south pole, and the last column repeats the first one's place.
-/
namespace MeshFlow
open Space

structure Sphere where
  radius : Float32 := 0.5
  segments : UInt32 := 32
  rings : UInt32 := 16

namespace Sphere

/-- The vertices of ring `ring`, one more than there are segments. -/
def ringVertices (radius : Float32) (segments rings ring : Nat) : List Vertex :=
  let v := Number.ofNat ring / Number.ofNat rings
  let phi := Number.halfTurn * v
  let height := phi.cos
  let reach := phi.sin
  let around := Number.ofNat segments
  (List.range (segments + 1)).map fun segment =>
    let u := Number.ofNat segment / around
    let theta := Number.wholeTurn * u
    let normal : Vec3 := ⟨reach * theta.cos, height, reach * theta.sin⟩
    ⟨normal.scale radius, normal, ⟨u, v⟩⟩

/-- The triangles between a ring and the next, at one segment: one at either pole, two between. -/
def cellFaces (segments rings ring segment : Nat) : List Face :=
  let a := ring * (segments + 1) + segment
  let b := a + 1
  let c := a + (segments + 1)
  let d := c + 1
  if ring = 0 then [⟨a, c, d⟩]
  else if ring + 1 = rings then [⟨a, c, b⟩]
  else Face.quad a c d b

def faces (segments rings : Nat) : List Face :=
  (List.range rings).flatMap fun ring =>
    (List.range segments).flatMap fun segment => cellFaces segments rings ring segment

def vertexCount (s : Sphere) : Nat := (max 2 s.rings.toNat + 1) * (max 3 s.segments.toNat + 1)

def toMesh (s : Sphere) : Mesh :=
  let segments := max 3 s.segments.toNat
  let rings := max 2 s.rings.toNat
  Mesh.ofSurface
    ((List.range (rings + 1)).flatMap (ringVertices s.radius segments rings))
    (faces segments rings)

end Sphere
end MeshFlow
