import MeshFlow.Mesh.Basic
import MeshFlow.Space.Matrix

set_option autoImplicit false

/-!
# Moving meshes

A matrix moves positions as points. Tangents turn with it as directions; normals turn with its
inverse transposed. What is left over at the end of a buffer stays.
-/
namespace MeshFlow
open Space

def mapVectors (f : Vec3 → Vec3) (xs : List Float32) : List Float32 :=
  (triples xs).flatMap (fun (x, y, z) => (f ⟨x, y, z⟩).toList) ++ afterTriples xs

/-- Maps the first three of every whole group of four of a buffer as vectors. `done` holds what has
been gone through, last first. -/
def mapLeadingAfter (f : Vec3 → Vec3) : (done : List Float32) → List Float32 → List Float32
  | done, x :: y :: z :: w :: rest =>
    mapLeadingAfter f (w :: ((f ⟨x, y, z⟩).toList.reverse ++ done)) rest
  | done, rest => done.reverse ++ rest

def mapLeadingVectors (f : Vec3 → Vec3) (xs : List Float32) : List Float32 :=
  mapLeadingAfter f [] xs

namespace Mesh

def transform (m : Mesh) (t : Matrix) : Mesh :=
  let forNormals := t.inverse.transpose
  { m with
    positions := mapVectors t.transformPoint m.positions
    normals := m.normals.map (mapVectors fun n => (forNormals.transformDirection n).normalizeOrZero)
    tangents := m.tangents.map
      (mapLeadingVectors fun n => (t.transformDirection n).normalizeOrZero) }

end Mesh
end MeshFlow
