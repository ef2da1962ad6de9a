import MeshFlow.Proofs.Validity

set_option autoImplicit false

/-!
# Shapes at every resolution

Spheres, planes and cylinders are divided as finely as their counts ask for. As long as the vertices
can be told apart by 32-bit indices, the mesh that comes out is valid, has as many vertices and
triangles as the counts say, and joins three different vertices in every triangle; and the indices
can be worked out in 32-bit words, with no sum or product on the way that does not fit.
-/
namespace MeshFlow

/-- A number as a word, unless it is too large. -/
def word? (n : Nat) : Option UInt32 := if n < 2 ^ 32 then some (.ofNat n) else none

def plus? (a b : UInt32) : Option UInt32 := word? (a.toNat + b.toNat)

def times? (a b : UInt32) : Option UInt32 := word? (a.toNat * b.toNat)

theorem toNat_word {n : Nat} (small : n < 2 ^ 32) : (UInt32.ofNat n).toNat = n :=
  UInt32.toNat_ofNat_of_lt' small

theorem word?_of_lt {n : Nat} (small : n < 2 ^ 32) : word? n = some (.ofNat n) := if_pos small

theorem plus?_ofNat {m n : Nat} (small : m + n < 2 ^ 32) :
    plus? (.ofNat m) (.ofNat n) = some (.ofNat (m + n)) := by
  rw [plus?, toNat_word (by omega), toNat_word (by omega), word?_of_lt small]

theorem times?_ofNat {m n : Nat} (left : m < 2 ^ 32) (right : n < 2 ^ 32) (small : m * n < 2 ^ 32) :
    times? (.ofNat m) (.ofNat n) = some (.ofNat (m * n)) := by
  rw [times?, toNat_word left, toNat_word right, word?_of_lt small]

/-- The indices that are worked out for each item of a list, one behind the other, if none of them
fails. -/
def gather? {α : Type} (f : α → Option (List UInt32)) (xs : List α) : Option (List UInt32) :=
  (xs.mapM f).map List.flatten

theorem gather?_eq {α : Type} {f : α → Option (List UInt32)} {faces : α → List Face} {xs : List α}
    (each : ∀ a ∈ xs, f a = some ((faces a).flatMap Face.toIndices)) :
    gather? f xs = some ((xs.flatMap faces).flatMap Face.toIndices) := by
  induction xs with
  | nil => rfl
  | cons x rest ih =>
    have first := each x (List.mem_cons_self ..)
    have others := ih fun a ha => each a (List.mem_cons_of_mem _ ha)
    rw [gather?, Option.map_eq_some_iff] at others
    obtain ⟨lists, found, joined⟩ := others
    rw [gather?, List.mapM_cons, first, found, List.flatMap_cons, List.flatMap_append, ← joined]
    rfl

/-- The cells of a grid, row by row. -/
def cells (rows columns : Nat) : List (Nat × Nat) := List.range rows ×ˢ List.range columns

theorem mem_cells {rows columns row column : Nat} :
    (row, column) ∈ cells rows columns ↔ row < rows ∧ column < columns := by
  rw [cells, List.mem_product, List.mem_range, List.mem_range]

theorem flatMap_cells {α : Type} (f : Nat → Nat → List α) (rows columns : Nat) :
    (cells rows columns).flatMap (fun cell => f cell.1 cell.2)
      = (List.range rows).flatMap fun row => (List.range columns).flatMap (f row) := by
  simp only [cells, SProd.sprod, List.product, List.flatMap_assoc, List.flatMap_map]

structure Corners where
  a : UInt32
  b : UInt32
  c : UInt32
  d : UInt32

/-- The corners of a cell, by words: from a corner on to the next in its row, and the two below. -/
def corners? (columns row column : Nat) : Option Corners := do
  let stride ← plus? (.ofNat columns) (.ofNat 1)
  let a ← plus? (← times? (.ofNat row) stride) (.ofNat column)
  let b ← plus? a (.ofNat 1)
  let c ← plus? a stride
  let d ← plus? c (.ofNat 1)
  return ⟨a, b, c, d⟩

theorem corners?_eq {rows columns row column : Nat} (few : (rows + 1) * (columns + 1) < 2 ^ 32)
    (hr : row < rows) (hc : column < columns) :
    corners? columns row column = some
      ⟨.ofNat (row * (columns + 1) + column), .ofNat (row * (columns + 1) + column + 1),
        .ofNat (row * (columns + 1) + column + (columns + 1)),
        .ofNat (row * (columns + 1) + column + (columns + 1) + 1)⟩ := by
  have corner := grid_lt hr hc
  have above : row ≤ row * (columns + 1) := Nat.le_mul_of_pos_right _ (by omega)
  simp (disch := omega) only [corners?, plus?_ofNat, times?_ofNat, Option.bind_eq_bind,
    Option.bind_some]
  rfl

namespace Sphere

/-- The indices of the triangles between a ring and the next, at one segment. -/
def cellIndices? (segments rings ring segment : Nat) : Option (List UInt32) := do
  let ⟨a, b, c, d⟩ ← corners? segments ring segment
  return if ring = 0 then [a, c, d] else if ring + 1 = rings then [a, c, b] else [a, c, d, a, d, b]

theorem cellIndices?_eq {segments rings ring segment : Nat}
    (few : (rings + 1) * (segments + 1) < 2 ^ 32) (hr : ring < rings) (hs : segment < segments) :
    cellIndices? segments rings ring segment
      = some ((cellFaces segments rings ring segment).flatMap Face.toIndices) := by
  rw [cellIndices?, corners?_eq few hr hs, cellFaces]
  split_ifs <;> simp [*, Face.quad, Face.toIndices]

def indices? (segments rings : Nat) : Option (List UInt32) :=
  gather? (fun cell => cellIndices? segments rings cell.1 cell.2) (cells rings segments)

theorem indices?_eq {segments rings : Nat} (few : (rings + 1) * (segments + 1) < 2 ^ 32) :
    indices? segments rings = some ((faces segments rings).flatMap Face.toIndices) := by
  rw [faces, ← flatMap_cells]
  refine gather?_eq fun cell mem => ?_
  obtain ⟨hr, hs⟩ := mem_cells.1 mem
  exact cellIndices?_eq few hr hs

end Sphere

namespace Plane

def cellIndices? (cellsX row column : Nat) : Option (List UInt32) := do
  let ⟨a, b, c, d⟩ ← corners? cellsX row column
  return [a, c, d, a, d, b]

theorem cellIndices?_eq {cellsX cellsZ row column : Nat}
    (few : (cellsZ + 1) * (cellsX + 1) < 2 ^ 32) (hr : row < cellsZ) (hc : column < cellsX) :
    cellIndices? cellsX row column
      = some ((cellFaces cellsX row column).flatMap Face.toIndices) := by
  rw [cellIndices?, corners?_eq few hr hc]
  rfl

def indices? (cellsX cellsZ : Nat) : Option (List UInt32) :=
  gather? (fun cell => cellIndices? cellsX cell.1 cell.2) (cells cellsZ cellsX)

theorem indices?_eq {cellsX cellsZ : Nat} (few : (cellsZ + 1) * (cellsX + 1) < 2 ^ 32) :
    indices? cellsX cellsZ = some ((faces cellsX cellsZ).flatMap Face.toIndices) := by
  rw [faces, ← flatMap_cells]
  refine gather?_eq fun cell mem => ?_
  obtain ⟨hr, hc⟩ := mem_cells.1 mem
  exact cellIndices?_eq few hr hc

end Plane

namespace Cylinder

def capFace (below : Bool) (centre segments step : Nat) : Face :=
  let here := centre + 1 + step
  let next := centre + 1 + (step + 1) % segments
  if below then ⟨centre, next, here⟩ else ⟨centre, here, next⟩

def columnFaces (segments step : Nat) : List Face :=
  let low := 2 * (segments + 1) + 2 * step
  Face.quad low (low + 1) (low + 3) (low + 2)

theorem capFaces_eq (below : Bool) (centre segments : Nat) :
    capFaces below centre segments = (List.range segments).map (capFace below centre segments) :=
  rfl

theorem sideFaces_eq (segments : Nat) :
    sideFaces segments = (List.range segments).flatMap (columnFaces segments) := rfl

def capIndices? (below : Bool) (centre segments step : Nat) : Option (List UInt32) := do
  let middle ← word? centre
  let here ← word? (centre + 1 + step)
  let next ← word? (centre + 1 + (step + 1) % segments)
  return if below then [middle, next, here] else [middle, here, next]

def columnIndices? (segments step : Nat) : Option (List UInt32) := do
  let start ← times? (.ofNat 2) (← plus? (.ofNat segments) (.ofNat 1))
  let low ← plus? start (← times? (.ofNat step) (.ofNat 2))
  let high ← plus? low (.ofNat 1)
  let lowNext ← plus? low (.ofNat 2)
  let highNext ← plus? low (.ofNat 3)
  return [low, high, highNext, low, highNext, lowNext]

theorem capIndices?_eq {centre segments step : Nat} (below : Bool)
    (few : centre + segments < 2 ^ 32) (hs : step < segments) :
    capIndices? below centre segments step
      = some (capFace below centre segments step).toIndices := by
  have next : (step + 1) % segments < segments := Nat.mod_lt _ (Nat.zero_lt_of_lt hs)
  simp (disch := omega) only [capIndices?, word?_of_lt, Option.bind_eq_bind, Option.bind_some]
  rw [capFace]
  split <;> rfl

theorem columnIndices?_eq {segments step : Nat} (few : 4 * (segments + 1) < 2 ^ 32)
    (hs : step < segments) :
    columnIndices? segments step
      = some ((columnFaces segments step).flatMap Face.toIndices) := by
  simp (disch := omega) only [columnIndices?, plus?_ofNat, times?_ofNat, Option.bind_eq_bind,
    Option.bind_some, Nat.mul_comm step]
  rfl

def indices? (lowerBelow upperBelow : Bool) (segments : Nat) : Option (List UInt32) := do
  let lower ← gather? (capIndices? lowerBelow 0 segments) (List.range segments)
  let upper ← gather? (capIndices? upperBelow (segments + 1) segments) (List.range segments)
  let side ← gather? (columnIndices? segments) (List.range segments)
  return lower ++ upper ++ side

theorem gather?_capIndices? {centre segments : Nat} (below : Bool)
    (few : centre + segments < 2 ^ 32) :
    gather? (capIndices? below centre segments) (List.range segments)
      = some ((capFaces below centre segments).flatMap Face.toIndices) := by
  rw [capFaces_eq, ← List.flatMap_pure_eq_map]
  refine gather?_eq fun step mem => ?_
  rw [capIndices?_eq below few (List.mem_range.1 mem)]
  simp

theorem indices?_eq {lowerBelow upperBelow : Bool} {segments : Nat}
    (few : 4 * (segments + 1) < 2 ^ 32) :
    indices? lowerBelow upperBelow segments
      = some ((faces lowerBelow upperBelow segments).flatMap Face.toIndices) := by
  have side : gather? (columnIndices? segments) (List.range segments)
      = some ((sideFaces segments).flatMap Face.toIndices) :=
    gather?_eq fun step mem => columnIndices?_eq few (List.mem_range.1 mem)
  rw [indices?, gather?_capIndices? _ (by omega), gather?_capIndices? _ (by omega), side, faces,
    List.flatMap_append, List.flatMap_append]
  rfl

end Cylinder

namespace Face

def Proper (f : Face) : Prop := f.a ≠ f.b ∧ f.b ≠ f.c ∧ f.c ≠ f.a

def toWords (f : Face) : UInt32 × UInt32 × UInt32 := (.ofNat f.a, .ofNat f.b, .ofNat f.c)

def ofWords (words : UInt32 × UInt32 × UInt32) : Face :=
  ⟨words.1.toNat, words.2.1.toNat, words.2.2.toNat⟩

theorem InCell.proper {columns a : Nat} {f : Face} (some : 0 < columns)
    (h : f.InCell (columns + 1) a) : f.Proper := by
  rcases h with rfl | rfl | rfl <;> refine ⟨?_, ?_, ?_⟩ <;> dsimp only <;> omega

theorem Below.ofWords_toWords {count : Nat} {f : Face} (few : count < 2 ^ 32)
    (h : f.Below count) : ofWords f.toWords = f := by
  obtain ⟨a, b, c⟩ := h
  rw [ofWords, toWords, toNat_word (a.trans few), toNat_word (b.trans few),
    toNat_word (c.trans few)]

end Face

namespace Mesh

theorem faces_ofSurface (vertices : List Vertex) (faces : List Face) :
    (ofSurface vertices faces).faces = faces.map Face.toWords := by
  change triples (faces.flatMap Face.toIndices) = _
  induction faces with
  | nil => rfl
  | cons f rest ih =>
    rw [List.flatMap_cons, Face.toIndices, List.cons_append, List.cons_append, List.cons_append,
      List.nil_append, triples_cons, ih]
    rfl

def corners (m : Mesh) : List Face := m.faces.map Face.ofWords

theorem corners_ofSurface {vertices : List Vertex} {faces : List Face} {count : Nat}
    (few : count < 2 ^ 32) (below : ∀ f ∈ faces, f.Below count) :
    (ofSurface vertices faces).corners = faces := by
  rw [corners, faces_ofSurface, List.map_map]
  calc faces.map (Face.ofWords ∘ Face.toWords)
      = faces.map fun f => f :=
        List.map_congr_left fun f hf => (below f hf).ofWords_toWords few
    _ = faces := List.map_id' faces

/-- A mesh as a shape has to come out: valid, with so many vertices and triangles, with normals,
texture coordinates and indices, and with three different vertices in each triangle. -/
structure WellFormed (m : Mesh) (vertices triangles : Nat) : Prop where
  valid : m.validate = .ok ()
  vertexCount : m.vertexCount = vertices
  faceCount : m.faceCount = triangles
  positions : m.hasPositions
  normals : m.normals.isSome
  uvs : m.uvs.isSome
  indices : m.hasIndices
  proper : ∀ f ∈ m.corners, f.Proper

theorem wellFormed_ofSurface {vertices : List Vertex} {faces : List Face} {count triangles : Nat}
    (vertices_eq : vertices.length = count) (faces_eq : faces.length = triangles)
    (few : count < 2 ^ 32) (some : 0 < triangles) (below : ∀ f ∈ faces, f.Below count)
    (proper : ∀ f ∈ faces, f.Proper) : (ofSurface vertices faces).WellFormed count triangles := by
  subst vertices_eq faces_eq
  have indices : (faces.flatMap Face.toIndices).length = faces.length * 3 :=
    length_flatMap_of_length _ 3 (fun _ => rfl) faces
  obtain ⟨f, hf⟩ := List.exists_mem_of_length_pos some
  constructor
  case valid => exact (validate_eq_ok_iff _).2 (valid_ofSurface below)
  case vertexCount => exact vertexCount_ofSurface ..
  case faceCount =>
    change (faces.flatMap Face.toIndices).length / 3 = _
    rw [indices, Nat.mul_div_cancel _ (by decide)]
  case positions =>
    have positions := length_positions_ofSurface vertices faces
    have := (below f hf).1
    rw [hasPositions, Bool.not_eq_true', List.isEmpty_eq_false_iff, ← List.length_pos_iff]
    omega
  case normals | uvs => rfl
  case indices =>
    change (!(faces.flatMap Face.toIndices).isEmpty) = true
    rw [Bool.not_eq_true', List.isEmpty_eq_false_iff, ← List.length_pos_iff]
    omega
  case proper =>
    rw [corners_ofSurface few below]
    exact proper

end Mesh

theorem length_flatMap_of_mem {α β : Type} {f : α → List β} {n : Nat} {xs : List α}
    (h : ∀ a ∈ xs, (f a).length = n) : (xs.flatMap f).length = xs.length * n := by
  induction xs with
  | nil => simp
  | cons x rest ih =>
    have first := h x (List.mem_cons_self ..)
    have others := ih fun a ha => h a (List.mem_cons_of_mem _ ha)
    rw [List.flatMap_cons, List.length_append, first, others, List.length_cons, Nat.succ_mul,
      Nat.add_comm]

namespace Sphere

def segmentCount (ball : Sphere) : Nat := max 3 ball.segments.toNat

def ringCount (ball : Sphere) : Nat := max 2 ball.rings.toNat

def cellSize (rings ring : Nat) : Nat := if ring = 0 ∨ ring + 1 = rings then 1 else 2

theorem length_cellFaces (segments rings ring segment : Nat) :
    (cellFaces segments rings ring segment).length = cellSize rings ring := by
  rw [cellFaces, cellSize]
  split_ifs <;> first | rfl | omega

theorem length_faces (segments : Nat) {rings : Nat} (two : 2 ≤ rings) :
    (faces segments rings).length = 2 * segments * (rings - 1) := by
  obtain ⟨middle, rfl⟩ := Nat.exists_eq_add_of_le' two
  have ring_length : ∀ ring, ((List.range segments).flatMap
      (cellFaces segments (middle + 2) ring)).length = segments * cellSize (middle + 2) ring := by
    intro ring
    rw [length_flatMap_of_length _ _ (length_cellFaces segments (middle + 2) ring),
      List.length_range]
  -- The fans at the poles are apart from the rings between.
  have between : ((List.range middle).flatMap fun ring => (List.range segments).flatMap
      (cellFaces segments (middle + 2) (ring + 1))).length = middle * (segments * 2) := by
    rw [length_flatMap_of_mem (n := segments * 2), List.length_range]
    intro ring hr
    have := List.mem_range.1 hr
    rw [ring_length, cellSize, if_neg (by omega)]
  have parts : List.range (middle + 2)
      = 0 :: (List.range middle).map (· + 1) ++ [middle + 1] := by
    rw [List.range_succ, List.range_succ_eq_map]
  rw [faces, parts, List.flatMap_append, List.flatMap_cons, List.flatMap_map, List.length_append,
    List.length_append, between, List.flatMap_singleton, ring_length, ring_length, cellSize,
    cellSize, if_pos (.inl rfl), if_pos (.inr rfl), show middle + 2 - 1 = middle + 1 from rfl]
  ring

theorem proper_faces {segments rings : Nat} : ∀ f ∈ faces segments rings, f.Proper := by
  intro f hf
  obtain ⟨ring, -, segment, hs, cell⟩ := exists_cell hf
  exact cell.proper (Nat.zero_lt_of_lt hs)

end Sphere

namespace Plane

def columnCount (sheet : Plane) : Nat := max 1 sheet.subdivisionsX.toNat

def rowCount (sheet : Plane) : Nat := max 1 sheet.subdivisionsZ.toNat

theorem length_faces (cellsX cellsZ : Nat) :
    (faces cellsX cellsZ).length = 2 * cellsX * cellsZ := by
  have row_length : ∀ row,
      ((List.range cellsX).flatMap (cellFaces cellsX row)).length = cellsX * 2 := by
    intro row
    rw [length_flatMap_of_length _ 2 fun _ => rfl, List.length_range]
  rw [faces, length_flatMap_of_length _ _ row_length, List.length_range]
  ring

theorem proper_faces {cellsX cellsZ : Nat} : ∀ f ∈ faces cellsX cellsZ, f.Proper := by
  intro f hf
  obtain ⟨row, -, column, hc, cell⟩ := exists_cell hf
  exact cell.proper (Nat.zero_lt_of_lt hc)

end Plane

namespace Cylinder

def segmentCount (tube : Cylinder) : Nat := max 3 tube.segments.toNat

theorem length_sideFaces (segments : Nat) : (sideFaces segments).length = 2 * segments := by
  rw [sideFaces_eq, length_flatMap_of_length _ 2 fun _ => rfl, List.length_range, Nat.mul_comm]

theorem length_faces (lowerBelow upperBelow : Bool) (segments : Nat) :
    (faces lowerBelow upperBelow segments).length = 4 * segments := by
  simp only [faces, capFaces, length_sideFaces, List.length_append, List.length_map,
    List.length_range]
  omega

theorem proper_capFace {below : Bool} {centre segments step : Nat} (two : 2 ≤ segments)
    (hs : step < segments) : (capFace below centre segments step).Proper := by
  have apart : (step + 1) % segments ≠ step := by
    rcases Nat.lt_or_ge (step + 1) segments with inside | last
    · rw [Nat.mod_eq_of_lt inside]
      omega
    · rw [show step + 1 = segments by omega, Nat.mod_self]
      omega
  rw [capFace]
  split <;> refine ⟨?_, ?_, ?_⟩ <;> dsimp only <;> omega

theorem proper_columnFaces (segments step : Nat) :
    ∀ f ∈ columnFaces segments step, f.Proper := by
  intro f hf
  simp only [columnFaces, Face.quad, List.mem_cons, List.not_mem_nil, or_false] at hf
  rcases hf with rfl | rfl <;> refine ⟨?_, ?_, ?_⟩ <;> dsimp only <;> omega

theorem proper_faces {lowerBelow upperBelow : Bool} {segments : Nat} (two : 2 ≤ segments) :
    ∀ f ∈ faces lowerBelow upperBelow segments, f.Proper := by
  intro f hf
  rw [faces, List.mem_append, List.mem_append, capFaces_eq, capFaces_eq, sideFaces_eq] at hf
  rcases hf with (lower | upper) | side
  · obtain ⟨step, hs, rfl⟩ := List.mem_map.1 lower
    exact proper_capFace two (List.mem_range.1 hs)
  · obtain ⟨step, hs, rfl⟩ := List.mem_map.1 upper
    exact proper_capFace two (List.mem_range.1 hs)
  · obtain ⟨step, -, hf⟩ := List.mem_flatMap.1 side
    exact proper_columnFaces segments step f hf

end Cylinder

/-- Shapes whose vertices can be numbered in 32 bits come out well-formed, with vertices and
triangles in the numbers that the counts give, and their indices are those that are worked out in
words, where nothing on the way is too large for one. -/
theorem shapes_wellFormed (ball : Sphere) (sheet : Plane) (tube : Cylinder) :
    ((ball.segmentCount + 1) * (ball.ringCount + 1) < 2 ^ 32 →
      ball.toMesh.WellFormed ((ball.segmentCount + 1) * (ball.ringCount + 1))
        (2 * ball.segmentCount * (ball.ringCount - 1)) ∧
      ball.toMesh.indices = Sphere.indices? ball.segmentCount ball.ringCount) ∧
    ((sheet.columnCount + 1) * (sheet.rowCount + 1) < 2 ^ 32 →
      sheet.toMesh.WellFormed ((sheet.columnCount + 1) * (sheet.rowCount + 1))
        (2 * sheet.columnCount * sheet.rowCount) ∧
      sheet.toMesh.indices = Plane.indices? sheet.columnCount sheet.rowCount) ∧
    (4 * (tube.segmentCount + 1) < 2 ^ 32 →
      tube.toMesh.WellFormed (4 * (tube.segmentCount + 1)) (4 * tube.segmentCount) ∧
      tube.toMesh.indices
        = Cylinder.indices? (-(tube.height / 2) < 0) (tube.height / 2 < 0) tube.segmentCount) := by
  refine ⟨fun few => ?_, fun few => ?_, fun few => ?_⟩
  · rw [Nat.mul_comm] at few ⊢
    have three : 3 ≤ ball.segmentCount := Nat.le_max_left ..
    have two : 2 ≤ ball.ringCount := Nat.le_max_left ..
    refine ⟨Mesh.wellFormed_ofSurface (Sphere.length_vertices ..) (Sphere.length_faces _ two) few
      (Nat.mul_pos (by omega) (by omega)) Sphere.below_faces Sphere.proper_faces, ?_⟩
    exact (Sphere.indices?_eq few).symm
  · rw [Nat.mul_comm] at few ⊢
    have across : 1 ≤ sheet.columnCount := Nat.le_max_left ..
    have along : 1 ≤ sheet.rowCount := Nat.le_max_left ..
    refine ⟨Mesh.wellFormed_ofSurface (Plane.length_vertices ..) (Plane.length_faces ..) few
      (Nat.mul_pos (by omega) (by omega)) Plane.below_faces Plane.proper_faces, ?_⟩
    exact (Plane.indices?_eq few).symm
  · have three : 3 ≤ tube.segmentCount := Nat.le_max_left ..
    refine ⟨Mesh.wellFormed_ofSurface (Cylinder.length_vertices ..) (Cylinder.length_faces ..) few
      (by omega) Cylinder.below_faces (Cylinder.proper_faces (by omega)), ?_⟩
    exact (Cylinder.indices?_eq few).symm

/-- Counts that are too small are raised to the least ones. -/
theorem wellFormed_coarse :
    (4 * 3 < 2 ^ 32 ∧ (Sphere.mk 1 0 0).toMesh.WellFormed 12 6 ∧
      (Sphere.mk 1 0 0).toMesh.indices = Sphere.indices? 3 2) ∧
    (3 * 4 < 2 ^ 32 ∧ (Plane.mk 1 1 2 3).toMesh.WellFormed 12 12 ∧
      (Plane.mk 1 1 2 3).toMesh.indices = Plane.indices? 2 3) ∧
    4 * 7 < 2 ^ 32 ∧ (Cylinder.mk 1 2 6).toMesh.WellFormed 28 24 := by
  obtain ⟨ball, sheet, tube⟩ := shapes_wellFormed ⟨1, 0, 0⟩ ⟨1, 1, 2, 3⟩ ⟨1, 2, 6⟩
  exact ⟨⟨by decide, ball (by decide)⟩, ⟨by decide, sheet (by decide)⟩, by decide,
    (tube (by decide)).1⟩

end MeshFlow
