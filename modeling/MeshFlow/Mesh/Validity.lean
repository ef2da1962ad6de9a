import MeshFlow.Mesh.Basic

set_option autoImplicit false

/-!
# Valid meshes

A mesh is valid when its buffers agree: whole vertices, every attribute that is there of the right
length, whole triangles, and no index past the last vertex. `validate` finds the first fault in
that order.
-/
namespace MeshFlow

inductive MeshError where
  | positionStride (length : Nat)
  | attributeLength (kind : Attribute) (expected got : Nat)
  | indexStride (length : Nat)
  | indexOutOfRange (index : UInt32) (vertexCount : Nat)
  deriving DecidableEq

namespace MeshError

def message : MeshError → String
  | positionStride length => s!"position buffer length {length} is not a multiple of 3"
  | attributeLength kind expected got =>
    s!"{kind.label} buffer has length {got}, expected {expected}"
  | indexStride length => s!"index buffer length {length} is not a multiple of 3"
  | indexOutOfRange index vertexCount => s!"index {index} out of range for {vertexCount} vertices"

end MeshError

namespace Mesh

def attributeFault? (m : Mesh) (k : Attribute) : Option MeshError :=
  (m.buffer? k).bind fun xs =>
    if xs.length = m.vertexCount * k.stride then none
    else some (.attributeLength k (m.vertexCount * k.stride) xs.length)

def indexFault? (m : Mesh) : Option MeshError :=
  let count := m.vertexCount
  m.indices.bind fun indices =>
    if indices.length % 3 ≠ 0 then some (.indexStride indices.length)
    else (indices.find? fun i => count ≤ i.toNat).map (.indexOutOfRange · count)

def validate (m : Mesh) : Except MeshError Unit :=
  if m.positions.length % 3 ≠ 0 then .error (.positionStride m.positions.length)
  else
    match Attribute.optional.findSome? m.attributeFault? with
    | some fault => .error fault
    | none =>
      match m.indexFault? with
      | some fault => .error fault
      | none => .ok ()

structure Valid (m : Mesh) : Prop where
  whole_vertices : m.positions.length % 3 = 0
  attribute_length : ∀ k ∈ Attribute.optional, ∀ xs, m.buffer? k = some xs →
    xs.length = m.vertexCount * k.stride
  whole_triangles : ∀ indices, m.indices = some indices → indices.length % 3 = 0
  index_lt : ∀ indices, m.indices = some indices → ∀ i ∈ indices, i.toNat < m.vertexCount

end Mesh
end MeshFlow
