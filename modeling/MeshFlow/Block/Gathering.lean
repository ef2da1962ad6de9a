import MeshFlow.Block.Sockets
import MeshFlow.Build.Program
import MeshFlow.Mesh.Merge
import MeshFlow.Mesh.Normals

set_option autoImplicit false

/-!
# Blocks on whole geometries

Computed normals, geometries put together, and what there is to know of one.
-/
namespace MeshFlow.Block
open Program

def computeNormalsProgram : Program Value := do
  return .ofMesh? ((← mesh? 0).map Mesh.computeNormals)

def gatherMeshes : List Nat → Program (List Mesh)
  | [] => return []
  | first :: rest => do
    let m ← mesh? first
    return (m.filter Mesh.hasPositions).toList ++ (← gatherMeshes rest)

def joined (parts : List Mesh) : Program Value :=
  handOn (Mesh.overflows parts) (Mesh.totalVertices parts) (.ofMesh? (Mesh.mergeAll? parts))

def mergeProgram : Program Value := do joined (← gatherMeshes (List.range 5))

def infoProgram (number : Mesh → Nat) : Program Value := do
  return ((← mesh? 0).map fun m => Value.ofNat (number m)).getD .null

def infoPlan : Plan where
  outputs :=
    [(0, .onRead do return .ofMesh? (← mesh? 0)), (1, .onRead (infoProgram (·.id.toNat))),
      (2, .onRead (infoProgram Mesh.vertexCount)), (3, .onRead (infoProgram Mesh.faceCount))]

end MeshFlow.Block
