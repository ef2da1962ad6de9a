import MeshFlow.Mesh.Basic

set_option autoImplicit false

/-!
# Making meshes

A surface lists its vertices and triangles all at once. A builder takes vertices, triangles and
quads one by one and makes a mesh of them in that order.
-/
namespace MeshFlow
open Space

structure Vertex where
  position : Vec3
  normal : Vec3
  uv : Vec2

structure Face where
  a : Nat
  b : Nat
  c : Nat
  deriving DecidableEq

namespace Face

/-- The two triangles of a quad, which share the edge from its first to its third corner. -/
def quad (a b c d : Nat) : List Face := [⟨a, b, c⟩, ⟨a, c, d⟩]

def toIndices (f : Face) : List UInt32 := [UInt32.ofNat f.a, UInt32.ofNat f.b, UInt32.ofNat f.c]

end Face

def Mesh.ofSurface (vertices : List Vertex) (faces : List Face) : Mesh where
  positions := vertices.flatMap (·.position.toList)
  normals := some (vertices.flatMap (·.normal.toList))
  uvs := some (vertices.flatMap (·.uv.toList))
  indices := some (faces.flatMap Face.toIndices)

structure MeshBuilder where
  points : List Vec3 := []
  /-- How many points there are. -/
  count : Nat := 0
  normals : List Vec3 := []
  uvs : List Vec2 := []
  triangles : List (List UInt32) := []

namespace MeshBuilder

def nextVertex (b : MeshBuilder) : UInt32 := UInt32.ofNat b.count

def addPoint (b : MeshBuilder) (position : Vec3) : MeshBuilder :=
  { b with points := position :: b.points, count := b.count + 1 }

def addVertex (b : MeshBuilder) (v : Vertex) : MeshBuilder :=
  { b.addPoint v.position with normals := v.normal :: b.normals, uvs := v.uv :: b.uvs }

def addTriangle (m : MeshBuilder) (a b c : UInt32) : MeshBuilder :=
  { m with triangles := [a, b, c] :: m.triangles }

def addQuad (m : MeshBuilder) (a b c d : UInt32) : MeshBuilder :=
  (m.addTriangle a b c).addTriangle a c d

/-- The floats or indices of all entries in order; nothing where there are no entries. -/
def buffer? {α β : Type} (toList : α → List β) (entries : List α) : Option (List β) :=
  if entries.isEmpty then none else some (entries.reverse.flatMap toList)

def toMesh (b : MeshBuilder) : Mesh where
  positions := b.points.reverse.flatMap Vec3.toList
  normals := buffer? Vec3.toList b.normals
  uvs := buffer? Vec2.toList b.uvs
  indices := buffer? id b.triangles

end MeshBuilder
end MeshFlow
