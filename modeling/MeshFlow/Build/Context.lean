import MeshFlow.Mesh.Indexed
import MeshFlow.Socket.Id
import MeshFlow.Value.Basic

set_option autoImplicit false

/-!
# Contexts

While a block reads an input once per vertex, per loop step or per face, it tells what the current
step is. Contextual sources are answered from there: first from what the step overrides, then from
the geometry at the current vertex.
-/
namespace MeshFlow
open Space

structure Execution where
  block : BlockId
  /-- The current vertex. -/
  index : Nat := 0
  loopIndex : Nat := 0
  faceIndex : Nat := 0
  /-- Stands in for the position of the current vertex. -/
  position : Option Vec3 := none
  /-- Stands in for the normal of the current vertex. -/
  normal : Option Vec3 := none

/-- A step with one number for vertex and loop. -/
def Execution.atStep (block : BlockId) (index : Nat) : Execution :=
  { block, index, loopIndex := index }

structure Instancing where
  block : BlockId
  index : Nat

structure Contexts where
  execution : Option Execution := none
  instancing : Option Instancing := none
  geometry : Option IndexedMesh := none

inductive ContextualSource where
  | positions
  | normals
  | colors
  | tangents
  | uv
  | vertexId
  | faceId
  | loopId
  | instanceId
  | geometryId
  | vertexCount
  | faceCount
  deriving DecidableEq

namespace ContextualSource

def table : List (String × ContextualSource) :=
  [("Positions", positions), ("Normals", normals), ("Colors", colors), ("Tangents", tangents),
    ("Uv", uv), ("VertexId", vertexId), ("FaceId", faceId), ("LoopId", loopId),
    ("InstanceId", instanceId), ("GeometryId", geometryId), ("VertexCount", vertexCount),
    ("FaceCount", faceCount)]

def name : ContextualSource → String
  | positions => "Positions"
  | normals => "Normals"
  | colors => "Colors"
  | tangents => "Tangents"
  | uv => "Uv"
  | vertexId => "VertexId"
  | faceId => "FaceId"
  | loopId => "LoopId"
  | instanceId => "InstanceId"
  | geometryId => "GeometryId"
  | vertexCount => "VertexCount"
  | faceCount => "FaceCount"

def kind : ContextualSource → Kind
  | positions | normals => .vector3
  | colors | tangents => .vector4
  | uv => .vector2
  | _ => .int

end ContextualSource

namespace Contexts

def atVertex {α : Type} (c : Contexts) (view : IndexedMesh → Nat → Option α) (make : α → Value) :
    Value :=
  match c.geometry, c.execution with
  | some mesh, some step => ((view mesh step.index).map make).getD .null
  | _, _ => .null

def ofStep (c : Contexts) (number : Execution → Nat) : Value :=
  (c.execution.map fun step => .ofNat (number step)).getD .null

def ofGeometry (c : Contexts) (number : IndexedMesh → Nat) : Value :=
  (c.geometry.map fun mesh => .ofNat (number mesh)).getD .null

def lookup (c : Contexts) : ContextualSource → Value
  | .positions =>
    match c.execution.bind (·.position) with
    | some p => .vector3 p
    | none => c.atVertex IndexedMesh.position? .vector3
  | .normals =>
    match c.execution.bind (·.normal) with
    | some n => .vector3 n
    | none => c.atVertex IndexedMesh.normal? .vector3
  | .colors => c.atVertex IndexedMesh.color? .vector4
  | .tangents => c.atVertex IndexedMesh.tangent? .vector4
  | .uv => c.atVertex IndexedMesh.uv? .vector2
  | .vertexId => c.ofStep (·.index)
  | .faceId => c.ofStep (·.faceIndex)
  | .loopId => c.ofStep (·.loopIndex)
  | .instanceId => (c.instancing.map fun i => .ofNat i.index).getD .null
  | .geometryId => c.ofGeometry (·.mesh.id.toNat)
  | .vertexCount => c.ofGeometry (·.columns.vertexCount)
  | .faceCount => c.ofGeometry (·.columns.faceCount)

/-- The contexts of a step that places an instance: the instance has the number of the loop. -/
def placing (c : Contexts) (step : Execution) : Contexts :=
  { c with execution := some step, instancing := some ⟨step.block, step.loopIndex⟩ }

end Contexts
end MeshFlow
