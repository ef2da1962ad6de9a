import MeshFlow.Mesh.Builder

set_option autoImplicit false

/-!
# Planes

A flat grid about the origin that faces up the y axis.
-/
namespace MeshFlow
open Space

structure Plane where
  width : Float32 := 1
  depth : Float32 := 1
  subdivisionsX : UInt32 := 1
  subdivisionsZ : UInt32 := 1

namespace Plane

def along (size share : Float32) : Float32 := -size / 2 + size * share

/-- The vertices of row `row`, one more than there are cells across. -/
def rowVertices (p : Plane) (cellsX cellsZ row : Nat) : List Vertex :=
  let v := Number.ofNat row / Number.ofNat cellsZ
  let z := along p.depth v
  let across := Number.ofNat cellsX
  (List.range (cellsX + 1)).map fun column =>
    let u := Number.ofNat column / across
    ⟨⟨along p.width u, 0, z⟩, Vec3.unitY, ⟨u, v⟩⟩

def cellFaces (cellsX row column : Nat) : List Face :=
  let a := row * (cellsX + 1) + column
  let c := a + (cellsX + 1)
  Face.quad a c (c + 1) (a + 1)

def faces (cellsX cellsZ : Nat) : List Face :=
  (List.range cellsZ).flatMap fun row =>
    (List.range cellsX).flatMap fun column => cellFaces cellsX row column

def vertexCount (p : Plane) : Nat :=
  (max 1 p.subdivisionsZ.toNat + 1) * (max 1 p.subdivisionsX.toNat + 1)

def toMesh (p : Plane) : Mesh :=
  let cellsX := max 1 p.subdivisionsX.toNat
  let cellsZ := max 1 p.subdivisionsZ.toNat
  Mesh.ofSurface
    ((List.range (cellsZ + 1)).flatMap (rowVertices p cellsX cellsZ))
    (faces cellsX cellsZ)

end Plane
end MeshFlow
