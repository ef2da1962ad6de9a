import MeshFlow.Block.Sockets
import MeshFlow.Build.Program
import MeshFlow.Mesh.Shape.Cuboid
import MeshFlow.Mesh.Shape.Cylinder
import MeshFlow.Mesh.Shape.Plane
import MeshFlow.Mesh.Shape.Sphere

set_option autoImplicit false

/-!
# Blocks that make geometry

Boxes, spheres, planes and cylinders from numbers, and meshes and point lists given as they are.
What a block makes bears the block's number.
-/
namespace MeshFlow.Block
open Program

def stamped (id : BlockId) (m : Mesh) : Value := .geometry { m with id }

def shaped (id : BlockId) (vertices : Nat) (m : Mesh) : Program Value :=
  handOn (UInt32.size < vertices) vertices (stamped id m)

/-- A dimension of its own where it is positive, or else the common size. -/
def dimension (own size : Float32) : Float32 := if 0 < own then own else size

def atLeast (least : Nat) (i : Int32) : UInt32 := UInt32.ofNat (max least i.toInt.toNat)

def boxProgram (id : BlockId) : Program Value := do
  let size ← float 0 1
  let width ← float 1 0
  let height ← float 2 0
  let depth ← float 3 0
  let box : Cuboid := ⟨dimension width size, dimension height size, dimension depth size⟩
  return stamped id box.toMesh

def sphereProgram (id : BlockId) : Program Value := do
  let segments ← int 0 32
  let diameter ← float 1 1
  let rings := atLeast 2 segments
  let ball : Sphere := ⟨diameter / 2, rings * 2, rings⟩
  shaped id ball.vertexCount ball.toMesh

def planeProgram (id : BlockId) : Program Value := do
  let size ← float 0 1
  let subdivisions ← int 3 1
  let width ← float 1 0
  let height ← float 2 0
  let cells := atLeast 1 subdivisions
  let grid : Plane := ⟨dimension width size, dimension height size, cells, cells⟩
  shaped id grid.vertexCount grid.toMesh

def cylinderProgram (id : BlockId) : Program Value := do
  let height ← float 0 2
  let diameter ← float 1 1
  let tessellation ← int 2 24
  let column : Cylinder := ⟨diameter / 2, height, atLeast 3 tessellation⟩
  shaped id column.vertexCount column.toMesh

def pointListValue (id : BlockId) (points : List Space.Vec3) : Value :=
  if points.isEmpty then .null else stamped id (Mesh.ofPoints points)

def reverseTriangles (indices : List UInt32) : List UInt32 :=
  (triples indices).flatMap (fun (a, b, c) => [a, c, b]) ++ afterTriples indices

def meshValue (data : Option Mesh) (reverseWinding : Bool) : Value :=
  .ofMesh? <| data.map fun m =>
    if reverseWinding then { m with indices := m.indices.map reverseTriangles } else m

end MeshFlow.Block
