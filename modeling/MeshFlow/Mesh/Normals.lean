import MeshFlow.Mesh.Basic

set_option autoImplicit false

/-!
# Smooth normals

The normal of a vertex is the sum of the normals of its triangles, weighted by area, made a unit
vector. Triangles with a missing corner count for nothing.
-/
namespace MeshFlow.Mesh
open Space

def addFaceNormal (points : Array Vec3) (sums : Array Vec3) (face : UInt32 × UInt32 × UInt32) :
    Array Vec3 :=
  match corners? points face with
  | none => sums
  | some t =>
    let normal := t.areaNormal
    ((sums.modify face.1.toNat (· + normal)).modify face.2.1.toNat (· + normal)).modify
      face.2.2.toNat (· + normal)

def normalSums (m : Mesh) : List Vec3 :=
  (m.faces.foldl (addFaceNormal m.points.toArray) (Array.replicate m.vertexCount Vec3.zero)).toList

/-- Replaces the normals; a mesh without indices stays as it is. -/
def computeNormals (m : Mesh) : Mesh :=
  match m.indices with
  | none => m
  | some _ => { m with normals := some (m.normalSums.flatMap (·.normalizeOrZero.toList)) }

end MeshFlow.Mesh
