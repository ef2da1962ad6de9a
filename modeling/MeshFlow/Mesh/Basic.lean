import MeshFlow.Mesh.Attribute
import MeshFlow.Space.Triangle

set_option autoImplicit false

/-!
# Meshes

A mesh is a set of flat buffers: floats by attribute, a fixed run of them per vertex, and vertex
indices in groups of three. Nothing here demands that the buffers agree; a mesh may come from
outside in any state, and every view answers for whole vertices and whole triangles alone.
-/
namespace MeshFlow
open Space

structure Mesh where
  positions : List Float32 := []
  normals : Option (List Float32) := none
  uvs : Option (List Float32) := none
  colors : Option (List Float32) := none
  tangents : Option (List Float32) := none
  indices : Option (List UInt32) := none
  /-- The geometry that the mesh was made from. -/
  id : UInt32 := 0
  deriving BEq

/-- The whole groups of three of a list, behind those in `found`, which has the last one first. -/
def triplesAfter {α : Type} : (found : List (α × α × α)) → List α → List (α × α × α)
  | found, a :: b :: c :: rest => triplesAfter ((a, b, c) :: found) rest
  | found, _ => found.reverse

def triples {α : Type} (xs : List α) : List (α × α × α) := triplesAfter [] xs

theorem triplesAfter_eq {α : Type} (found : List (α × α × α)) :
    (xs : List α) → triplesAfter found xs = found.reverse ++ triplesAfter [] xs
  | a :: b :: c :: rest => by
    rw [triplesAfter, triplesAfter_eq (_ :: found), triplesAfter, triplesAfter_eq [_]]
    simp
  | [] | [_] | [_, _] => by simp [triplesAfter]

theorem triples_cons {α : Type} (a b c : α) (rest : List α) :
    triples (a :: b :: c :: rest) = (a, b, c) :: triples rest := by
  rw [triples, triplesAfter, triplesAfter_eq]
  rfl

def afterTriples {α : Type} (xs : List α) : List α := xs.drop (xs.length / 3 * 3)

def fitted {α : Type} (length : Nat) (fill : α) (xs : List α) : List α :=
  xs.take length ++ List.replicate (length - xs.length) fill

theorem length_fitted {α : Type} (n : Nat) (fill : α) (xs : List α) :
    (fitted n fill xs).length = n := by
  simp only [fitted, List.length_append, List.length_take, List.length_replicate]
  omega

theorem fitted_of_length {α : Type} {n : Nat} (fill : α) {xs : List α} (h : xs.length = n) :
    fitted n fill xs = xs := by
  simp [fitted, h, List.take_of_length_le (Nat.le_of_eq h)]

theorem fitted_nil {α : Type} (n : Nat) (fill : α) :
    fitted n fill [] = List.replicate n fill := by
  simp [fitted]

def filledUp {α : Type} (length : Nat) (fill : α) (xs : List α) : List α :=
  xs ++ List.replicate (length - xs.length) fill

def slice? {α : Type} (start stop : Nat) (xs : List α) : Option (List α) :=
  if start ≤ stop ∧ stop ≤ xs.length then some ((xs.drop start).take (stop - start)) else none

namespace Mesh

def empty : Mesh := {}

def ofPositions (positions : List Float32) : Mesh := { positions }

def ofPoints (points : List Vec3) : Mesh := ofPositions (points.flatMap Vec3.toList)

def vertexCount (m : Mesh) : Nat := m.positions.length / 3

def faceCount (m : Mesh) : Nat := (m.indices.getD []).length / 3

def hasPositions (m : Mesh) : Bool := !m.positions.isEmpty

def hasIndices (m : Mesh) : Bool := !(m.indices.getD []).isEmpty

def buffer? (m : Mesh) : Attribute → Option (List Float32)
  | .position => some m.positions
  | .normal => m.normals
  | .uv => m.uvs
  | .color => m.colors
  | .tangent => m.tangents

def withBuffer (m : Mesh) (xs : List Float32) : Attribute → Mesh
  | .position => { m with positions := xs }
  | .normal => { m with normals := some xs }
  | .uv => { m with uvs := some xs }
  | .color => { m with colors := some xs }
  | .tangent => { m with tangents := some xs }

/-- The buffer of an attribute with an entry for every vertex: made, or filled up, where it is
missing or short. -/
def wholeBuffer (m : Mesh) : Attribute → List Float32
  | .position => m.positions
  | k => filledUp (m.vertexCount * k.stride) k.fill ((m.buffer? k).getD [])

def ensure (m : Mesh) (k : Attribute) : Mesh := m.withBuffer (m.wholeBuffer k) k

/-- Writes the components of one vertex. Surplus values are left out, and components without a
value stay. -/
def write (m : Mesh) (k : Attribute) (vertex : Nat) (values : List Float32) : Mesh :=
  let start := vertex * k.stride
  let xs := filledUp (start + k.stride) k.fill (m.wholeBuffer k)
  let written := values.take k.stride
  m.withBuffer (xs.take start ++ written ++ xs.drop (start + written.length)) k

/-- Puts new components over the entries of successive vertices of a buffer; a vertex without new
ones keeps its own. `done` holds what has been gone through, last first. -/
def overwriteAfter (stride : Nat) : (done : List Float32) → List (Option (List Float32)) →
    List Float32 → List Float32
  | done, [], xs => done.reverse ++ xs
  | done, entry :: rest, xs =>
    overwriteAfter stride ((entry.getD (xs.take stride)).reverse ++ done) rest (xs.drop stride)

def overwrite (m : Mesh) (k : Attribute) (entries : List (Option (List Float32))) : Mesh :=
  m.withBuffer (overwriteAfter k.stride [] entries (m.wholeBuffer k)) k

/-! ## Views -/

def position? (m : Mesh) (vertex : Nat) : Option Vec3 := Vec3.ofEntry? (m.positions[·]?) vertex

def normal? (m : Mesh) (vertex : Nat) : Option Vec3 :=
  m.normals.bind fun xs => Vec3.ofEntry? (xs[·]?) vertex

def uv? (m : Mesh) (vertex : Nat) : Option Vec2 :=
  m.uvs.bind fun xs => Vec2.ofEntry? (xs[·]?) vertex

def color? (m : Mesh) (vertex : Nat) : Option Vec4 :=
  m.colors.bind fun xs => Vec4.ofEntry? (xs[·]?) vertex

def tangent? (m : Mesh) (vertex : Nat) : Option Vec4 :=
  m.tangents.bind fun xs => Vec4.ofEntry? (xs[·]?) vertex

def points (m : Mesh) : List Vec3 := (triples m.positions).map fun (x, y, z) => ⟨x, y, z⟩

def faces (m : Mesh) : List (UInt32 × UInt32 × UInt32) := triples (m.indices.getD [])

def face? (m : Mesh) (face : Nat) : Option (List UInt32) :=
  m.indices.bind (slice? (face * 3) (face * 3 + 3))

/-- The corners of a triangle, where all three vertices exist. -/
def corners? (points : Array Vec3) (face : UInt32 × UInt32 × UInt32) : Option Triangle := do
  let a ← points[face.1.toNat]?
  let b ← points[face.2.1.toNat]?
  let c ← points[face.2.2.toNat]?
  return ⟨a, b, c⟩

/-- The triangles whose corners exist, each with its number among all. -/
def triangles (m : Mesh) : List (Nat × Triangle) :=
  let points := m.points.toArray
  m.faces.zipIdx.filterMap fun (face, number) => (corners? points face).map (number, ·)

def bounds? (m : Mesh) : Option (Vec3 × Vec3) :=
  match m.points with
  | [] => none
  | first :: rest =>
    some (rest.foldl Vec3.componentMin first, rest.foldl Vec3.componentMax first)

end Mesh
end MeshFlow
