import MeshFlow.Mesh.Builder

set_option autoImplicit false

/-!
# Cylinders

A closed cylinder along the y axis. Each cap has a centre and a ring of vertices of its own; the
side has a lower and an upper vertex per column, and its last column repeats the first one's place.
-/
namespace MeshFlow
open Space

structure Cylinder where
  radius : Float32 := 0.5
  height : Float32 := 1
  segments : UInt32 := 24

namespace Cylinder

def angle (segments step : Nat) : Float32 :=
  Number.wholeTurn * Number.ofNat step / Number.ofNat segments

def capVertices (radius y : Float32) (segments : Nat) (normal : Vec3) : List Vertex :=
  ⟨⟨0, y, 0⟩, normal, Vec2.splat 0.5⟩ ::
    (List.range segments).map fun step =>
      let c := (angle segments step).cos
      let s := (angle segments step).sin
      ⟨⟨c * radius, y, s * radius⟩, normal, ⟨0.5 + c * 0.5, 0.5 + s * 0.5⟩⟩

/-- The lower and the upper vertex of a column of the side. -/
def columnVertices (radius half : Float32) (segments step : Nat) : List Vertex :=
  let c := (angle segments step).cos
  let s := (angle segments step).sin
  let normal : Vec3 := ⟨c, 0, s⟩
  let u := Number.ofNat step / Number.ofNat segments
  let rim : Vec3 := ⟨c * radius, 0, s * radius⟩
  [⟨rim - Vec3.unitY.scale half, normal, ⟨u, 0⟩⟩, ⟨rim + Vec3.unitY.scale half, normal, ⟨u, 1⟩⟩]

def vertices (c : Cylinder) (segments : Nat) : List Vertex :=
  let half := c.height / 2
  capVertices c.radius (-half) segments ⟨0, -1, 0⟩
    ++ capVertices c.radius half segments Vec3.unitY
    ++ (List.range (segments + 1)).flatMap (columnVertices c.radius half segments)

/-- The fan of a cap whose centre is vertex `centre`; one below zero winds the other way. -/
def capFaces (below : Bool) (centre segments : Nat) : List Face :=
  (List.range segments).map fun step =>
    let here := centre + 1 + step
    let next := centre + 1 + (step + 1) % segments
    if below then ⟨centre, next, here⟩ else ⟨centre, here, next⟩

def sideFaces (segments : Nat) : List Face :=
  (List.range segments).flatMap fun step =>
    let low := 2 * (segments + 1) + 2 * step
    Face.quad low (low + 1) (low + 3) (low + 2)

def faces (lowerBelow upperBelow : Bool) (segments : Nat) : List Face :=
  capFaces lowerBelow 0 segments ++ capFaces upperBelow (segments + 1) segments
    ++ sideFaces segments

def vertexCount (c : Cylinder) : Nat := 4 * (max 3 c.segments.toNat + 1)

def toMesh (c : Cylinder) : Mesh :=
  let segments := max 3 c.segments.toNat
  let half := c.height / 2
  Mesh.ofSurface (c.vertices segments) (faces (-half < 0) (half < 0) segments)

end Cylinder
end MeshFlow
