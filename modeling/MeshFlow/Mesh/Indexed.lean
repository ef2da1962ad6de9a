import MeshFlow.Mesh.Basic

set_option autoImplicit false

/-!
# Meshes for looking up vertices

A block that goes through the vertices of a mesh looks each of them up by its number. An indexed
mesh holds the buffers as arrays for this; what it answers is what the mesh answers.
-/
namespace MeshFlow
open Space

structure Columns where
  positions : Array Float32
  normals : Option (Array Float32)
  uvs : Option (Array Float32)
  colors : Option (Array Float32)
  tangents : Option (Array Float32)
  vertexCount : Nat
  faceCount : Nat

def Mesh.columns (m : Mesh) : Columns where
  positions := m.positions.toArray
  normals := m.normals.map List.toArray
  uvs := m.uvs.map List.toArray
  colors := m.colors.map List.toArray
  tangents := m.tangents.map List.toArray
  vertexCount := m.vertexCount
  faceCount := m.faceCount

structure IndexedMesh where
  mesh : Mesh
  columns : Columns := mesh.columns
  columns_eq : columns = mesh.columns := by rfl

namespace IndexedMesh

def of (mesh : Mesh) : IndexedMesh := { mesh }

def position? (m : IndexedMesh) (vertex : Nat) : Option Vec3 :=
  Vec3.ofEntry? (m.columns.positions[·]?) vertex

def normal? (m : IndexedMesh) (vertex : Nat) : Option Vec3 :=
  m.columns.normals.bind fun xs => Vec3.ofEntry? (xs[·]?) vertex

def uv? (m : IndexedMesh) (vertex : Nat) : Option Vec2 :=
  m.columns.uvs.bind fun xs => Vec2.ofEntry? (xs[·]?) vertex

def color? (m : IndexedMesh) (vertex : Nat) : Option Vec4 :=
  m.columns.colors.bind fun xs => Vec4.ofEntry? (xs[·]?) vertex

def tangent? (m : IndexedMesh) (vertex : Nat) : Option Vec4 :=
  m.columns.tangents.bind fun xs => Vec4.ofEntry? (xs[·]?) vertex

theorem position?_eq (m : IndexedMesh) (vertex : Nat) :
    m.position? vertex = m.mesh.position? vertex := by
  simp [position?, Mesh.position?, m.columns_eq, Mesh.columns]

theorem normal?_eq (m : IndexedMesh) (vertex : Nat) :
    m.normal? vertex = m.mesh.normal? vertex := by
  obtain ⟨mesh, _, rfl⟩ := m
  cases h : mesh.normals <;> simp [normal?, Mesh.normal?, Mesh.columns, h]

theorem uv?_eq (m : IndexedMesh) (vertex : Nat) : m.uv? vertex = m.mesh.uv? vertex := by
  obtain ⟨mesh, _, rfl⟩ := m
  cases h : mesh.uvs <;> simp [uv?, Mesh.uv?, Mesh.columns, h]

theorem color?_eq (m : IndexedMesh) (vertex : Nat) :
    m.color? vertex = m.mesh.color? vertex := by
  obtain ⟨mesh, _, rfl⟩ := m
  cases h : mesh.colors <;> simp [color?, Mesh.color?, Mesh.columns, h]

theorem tangent?_eq (m : IndexedMesh) (vertex : Nat) :
    m.tangent? vertex = m.mesh.tangent? vertex := by
  obtain ⟨mesh, _, rfl⟩ := m
  cases h : mesh.tangents <;> simp [tangent?, Mesh.tangent?, Mesh.columns, h]

theorem vertexCount_eq (m : IndexedMesh) : m.columns.vertexCount = m.mesh.vertexCount := by
  simp [m.columns_eq, Mesh.columns]

theorem faceCount_eq (m : IndexedMesh) : m.columns.faceCount = m.mesh.faceCount := by
  simp [m.columns_eq, Mesh.columns]

end IndexedMesh
end MeshFlow
