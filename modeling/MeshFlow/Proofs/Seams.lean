import Mathlib.Data.ZMod.Basic
import MeshFlow.Proofs.Resolution

set_option autoImplicit false

/-!
# Seams

A triangle runs through its edges in the order of its vertices. Two triangles that meet face the
same way if they run through the edge between them in opposite directions. So a surface is closed,
and wound one way everywhere, if every directed edge occurs once and its reverse once.
-/
namespace MeshFlow

def around {α : Type} (a b c : α) : List (α × α) := [(a, b), (b, c), (c, a)]

def Face.edges {α : Type} (weld : Nat → α) (f : Face) : List (α × α) :=
  around (weld f.a) (weld f.b) (weld f.c)

/-- The directed edges of all triangles, between the places that `weld` puts the vertices in. -/
def Mesh.edges {α : Type} (weld : Nat → α) (m : Mesh) : List (α × α) :=
  m.corners.flatMap (Face.edges weld)

/-- Every edge is run through once, and once the other way round. -/
def Closed {α : Type} [DecidableEq α] (edges : List (α × α)) : Prop :=
  ∀ e ∈ edges, edges.count e = 1 ∧ edges.count e.swap = 1

section
variable {α β : Type}

theorem Mesh.edges_ofSurface (weld : Nat → α) {vertices : List Vertex} {faces : List Face}
    {count : Nat} (few : count < 2 ^ 32) (below : ∀ f ∈ faces, f.Below count) :
    (ofSurface vertices faces).edges weld = faces.flatMap (Face.edges weld) := by
  rw [Mesh.edges, corners_ofSurface few below]

theorem closed_of_nodup [DecidableEq α] {edges : List (α × α)} (once : edges.Nodup)
    (back : ∀ e ∈ edges, e.swap ∈ edges) : Closed edges := fun e he =>
  ⟨List.count_eq_one_of_mem once he, List.count_eq_one_of_mem once (back e he)⟩

/-- Lists put together have nothing twice if none of them has, and what is in one of them tells
which one it is. -/
theorem nodup_flatMap_of_owner {f : α → List β} {xs : List α} (owner : β → α) (apart : xs.Nodup)
    (each : ∀ a ∈ xs, (f a).Nodup) (owned : ∀ a ∈ xs, ∀ b ∈ f a, owner b = a) :
    (xs.flatMap f).Nodup := by
  refine List.nodup_flatMap.2 ⟨each, apart.imp_of_mem fun ha ha' ne => ?_⟩
  intro b first second
  exact ne ((owned _ ha b first).symm.trans (owned _ ha' b second))

theorem nodup_around {a b c : α} (ab : a ≠ b) (bc : b ≠ c) (ca : c ≠ a) :
    (around a b c).Nodup := by
  simp [around, ab, bc, ca, ab.symm]

end

/-- The columns around an axis, of which the one behind the last is the first. -/
def columns (segments : Nat) : List (ZMod segments) := (List.range segments).map (↑)

theorem mem_columns {segments : Nat} [NeZero segments] (z : ZMod segments) :
    z ∈ columns segments :=
  List.mem_map.2 ⟨z.val, List.mem_range.2 z.val_lt, ZMod.natCast_zmod_val z⟩

theorem nodup_columns (segments : Nat) : (columns segments).Nodup := by
  refine List.Nodup.map_on (fun m hm n hn same => ?_) List.nodup_range
  rw [ZMod.natCast_eq_natCast_iff', Nat.mod_eq_of_lt (List.mem_range.1 hm),
    Nat.mod_eq_of_lt (List.mem_range.1 hn)] at same
  exact same

theorem flatMap_columns {α : Type} {segments : Nat} (f : ZMod segments → List α) :
    (columns segments).flatMap f = (List.range segments).flatMap fun step : Nat => f step :=
  List.flatMap_map ..

theorem column_ne {segments : Nat} (three : 3 ≤ segments) (z : ZMod segments) :
    z + 1 ≠ z ∧ z + 1 + 1 ≠ z := by
  have small : ∀ n < segments, n ≠ 0 → ((n : ℕ) : ZMod segments) ≠ 0 := fun n lt ne zero =>
    ne (Nat.eq_zero_of_dvd_of_lt ((ZMod.natCast_eq_zero_iff n segments).1 zero) lt)
  have one := small 1 (by omega) (by omega)
  have two := small 2 (by omega) (by omega)
  rw [Nat.cast_one] at one
  rw [Nat.cast_ofNat, ← one_add_one_eq_two] at two
  rw [add_assoc]
  exact ⟨by simpa using one, by simpa using two⟩

/-- Where a vertex stands in a grid that is written row by row: its row and its column. -/
def gridPlace (columns vertex : Nat) : Nat × Nat :=
  (vertex / (columns + 1), vertex % (columns + 1))

theorem gridPlace_injective (columns : Nat) : Function.Injective (gridPlace columns) := by
  intro v w same
  obtain ⟨row, column⟩ := Prod.mk.inj same
  rw [← Nat.div_add_mod v (columns + 1), row, column, Nat.div_add_mod]

theorem gridPlace_eq {columns column : Nat} (row : Nat) (le : column ≤ columns) :
    gridPlace columns (row * (columns + 1) + column) = (row, column) := by
  rw [gridPlace, Nat.mul_comm, Nat.mul_add_div (by omega), Nat.div_eq_of_lt (by omega),
    Nat.add_zero, Nat.mul_add_mod, Nat.mod_eq_of_lt (by omega)]

theorem gridPlace_corners {columns column : Nat} (row : Nat) (hc : column < columns) :
    gridPlace columns (row * (columns + 1) + column) = (row, column) ∧
    gridPlace columns (row * (columns + 1) + column + 1) = (row, column + 1) ∧
    gridPlace columns (row * (columns + 1) + column + (columns + 1)) = (row + 1, column) ∧
    gridPlace columns (row * (columns + 1) + column + (columns + 1) + 1)
      = (row + 1, column + 1) := by
  have below : row * (columns + 1) + column + (columns + 1)
      = (row + 1) * (columns + 1) + column := by
    ring
  rw [below]
  exact ⟨gridPlace_eq row hc.le, gridPlace_eq row hc, gridPlace_eq (row + 1) hc.le,
    gridPlace_eq (row + 1) hc⟩

namespace Sphere

/-- The places on a sphere: the poles, and the rings between, around which the last column is the
first again. -/
inductive Spot (segments : Nat) where
  | north
  | south
  | on (ring : Nat) (column : ZMod segments)
  deriving DecidableEq

def spot (segments rings : Nat) : Nat × Nat → Spot segments
  | (ring, column) =>
    if ring = 0 then .north else if ring = rings then .south else .on ring column

/-- The place of a vertex: all of the first ring are at the north pole, all of the last one at the
south pole. -/
def weld (segments rings vertex : Nat) : Spot segments :=
  spot segments rings (gridPlace segments vertex)

section
variable {segments rings ring column vertex : Nat}

theorem weld_north (place : gridPlace segments vertex = (0, column)) :
    weld segments rings vertex = .north := by
  rw [weld, place, spot, if_pos rfl]

theorem weld_south (some : 0 < rings) (place : gridPlace segments vertex = (rings, column)) :
    weld segments rings vertex = .south := by
  rw [weld, place, spot, if_neg (by omega), if_pos rfl]

theorem weld_on (above : 0 < ring) (below : ring < rings)
    (place : gridPlace segments vertex = (ring, column)) :
    weld segments rings vertex = .on ring column := by
  rw [weld, place, spot, if_neg (by omega), if_neg (by omega)]

end

def cellEdges {segments : Nat} (rings : Nat) :
    Nat × ZMod segments → List (Spot segments × Spot segments)
  | (ring, z) =>
    if ring = 0 then around .north (.on 1 z) (.on 1 (z + 1))
    else if ring + 1 = rings then around (.on ring z) .south (.on ring (z + 1))
    else around (.on ring z) (.on (ring + 1) z) (.on (ring + 1) (z + 1))
      ++ around (.on ring z) (.on (ring + 1) (z + 1)) (.on ring (z + 1))

theorem cellEdges_first {segments : Nat} (rings : Nat) (z : ZMod segments) :
    cellEdges rings (0, z) = around .north (.on 1 z) (.on 1 (z + 1)) := by
  rw [cellEdges, if_pos rfl]

theorem cellEdges_last {segments ring : Nat} (above : 0 < ring) (z : ZMod segments) :
    cellEdges (ring + 1) (ring, z) = around (.on ring z) .south (.on ring (z + 1)) := by
  rw [cellEdges, if_neg (by omega), if_pos rfl]

theorem cellEdges_between {segments rings ring : Nat} (above : 0 < ring) (below : ring + 1 < rings)
    (z : ZMod segments) :
    cellEdges rings (ring, z)
      = around (.on ring z) (.on (ring + 1) z) (.on (ring + 1) (z + 1))
        ++ around (.on ring z) (.on (ring + 1) (z + 1)) (.on ring (z + 1)) := by
  rw [cellEdges, if_neg (by omega), if_neg (by omega)]

theorem edges_cellFaces {segments rings ring segment : Nat} (two : 2 ≤ rings) (hr : ring < rings)
    (hs : segment < segments) :
    (cellFaces segments rings ring segment).flatMap (Face.edges (weld segments rings))
      = cellEdges rings (ring, (segment : ZMod segments)) := by
  obtain ⟨a, b, c, d⟩ := gridPlace_corners ring hs
  rw [cellFaces, cellEdges]
  split_ifs with first last
  · subst first
    simp only [List.flatMap_singleton, Face.edges, weld_north a, weld_on one_pos two c,
      weld_on one_pos two d, Nat.cast_succ]
  · subst last
    simp only [List.flatMap_singleton, Face.edges, weld_on (by omega) hr a, weld_on (by omega) hr b,
      weld_south (by omega) c, Nat.cast_succ]
  · have above : 0 < ring := by omega
    have below : ring + 1 < rings := by omega
    simp only [Face.quad, List.flatMap_cons, List.flatMap_nil, List.append_nil, Face.edges,
      weld_on above hr a, weld_on above hr b, weld_on (Nat.succ_pos _) below c,
      weld_on (Nat.succ_pos _) below d, Nat.cast_succ]

theorem nodup_cellEdges {segments rings : Nat} (three : 3 ≤ segments)
    (cell : Nat × ZMod segments) : (cellEdges rings cell).Nodup := by
  obtain ⟨ring, z⟩ := cell
  have next := (column_ne three z).1
  rw [cellEdges]
  split_ifs with first last
  · exact nodup_around nofun (by simpa using next) nofun
  · exact nodup_around nofun nofun (by simpa using next)
  · simp [around, next, next.symm]

def cellOf {segments : Nat} : Spot segments × Spot segments → Nat × ZMod segments
  | (.on ring z, .on ring' w) =>
    if ring = ring' then if w = z + 1 then (ring - 1, z) else (ring, w)
    else if ring < ring' then (ring, z) else (ring', z - 1)
  | (.north, .on _ z) => (0, z)
  | (.on _ z, .north) => (0, z - 1)
  | (.on ring z, .south) => (ring, z)
  | (.south, .on ring z) => (ring, z - 1)
  | _ => (0, 0)

theorem cellOf_eq {segments rings : Nat} (three : 3 ≤ segments) (cell : Nat × ZMod segments) :
    ∀ e ∈ cellEdges rings cell, cellOf e = cell := by
  obtain ⟨ring, z⟩ := cell
  obtain ⟨next, second⟩ := column_ne three z
  rw [cellEdges]
  split_ifs with first last
  · simp [around, cellOf, first]
  · simp [around, cellOf, second.symm]
  · simp [around, cellOf, second.symm]

/-- The edges of a sphere go along a ring or up and down between a ring and the next, straight or
across a cell. -/
def Joined {segments : Nat} (rings : Nat) : Spot segments → Spot segments → Prop
  | .on ring z, .on ring' w =>
    0 < ring ∧ ring < rings ∧ 0 < ring' ∧ ring' < rings ∧
      (ring' = ring ∧ (w = z + 1 ∨ z = w + 1) ∨ ring' = ring + 1 ∧ (w = z ∨ w = z + 1) ∨
        ring = ring' + 1 ∧ (z = w ∨ z = w + 1))
  | .north, .on ring _ | .on ring _, .north => ring = 1
  | .south, .on ring _ | .on ring _, .south => 0 < ring ∧ ring + 1 = rings
  | _, _ => False

theorem Joined.symm {segments rings : Nat} :
    {p q : Spot segments} → Joined rings p q → Joined rings q p
  | .on _ _, .on _ _, ⟨above, below, above', below', case⟩ =>
    ⟨above', below', above, below, by
      rcases case with ⟨level, side⟩ | down | up
      · exact .inl ⟨level.symm, side.symm⟩
      · exact .inr (.inr down)
      · exact .inr (.inl up)⟩
  | .north, .on _ _, h | .on _ _, .north, h | .south, .on _ _, h | .on _ _, .south, h => h

theorem joined_of_mem {segments rings : Nat} (two : 2 ≤ rings) {cell : Nat × ZMod segments}
    (hr : cell.1 < rings) : ∀ e ∈ cellEdges rings cell, Joined rings e.1 e.2 := by
  obtain ⟨ring, z⟩ := cell
  rw [cellEdges]
  split_ifs with first last
  · simp [around, Joined, show 1 < rings by omega]
  · simp [around, Joined, last, show 0 < ring by omega, show ring < rings by omega]
  · simp [around, Joined, show 0 < ring by omega, show ring < rings by omega,
      show ring + 1 < rings by omega]

theorem exists_cell_of_level {segments rings ring : Nat} (above : 0 < ring) (below : ring < rings)
    {z w : ZMod segments} (side : w = z + 1 ∨ z = w + 1) :
    ∃ cell : Nat × ZMod segments, cell.1 < rings ∧
      (.on ring z, .on ring w) ∈ cellEdges rings cell := by
  rcases side with rfl | rfl
  · obtain ⟨before, rfl⟩ := Nat.exists_eq_add_of_le' above
    refine ⟨(before, z), by dsimp only; omega, ?_⟩
    rcases Nat.eq_zero_or_pos before with rfl | inside
    · simp [cellEdges_first, around]
    · simp [cellEdges_between inside below, around]
  · refine ⟨(ring, w), below, ?_⟩
    rcases Nat.lt_or_ge (ring + 1) rings with inside | last
    · simp [cellEdges_between above inside, around]
    · obtain rfl : rings = ring + 1 := by omega
      simp [cellEdges_last above, around]

theorem exists_cell_of_joined {segments rings : Nat} (two : 2 ≤ rings) {p q : Spot segments}
    (h : Joined rings p q) :
    ∃ cell : Nat × ZMod segments, cell.1 < rings ∧ (p, q) ∈ cellEdges rings cell := by
  match p, q, h with
  | .north, .on _ z, rfl =>
    exact ⟨(0, z), Nat.zero_lt_of_lt two, by simp [cellEdges_first, around]⟩
  | .on _ z, .north, rfl =>
    exact ⟨(0, z - 1), Nat.zero_lt_of_lt two, by simp [cellEdges_first, around]⟩
  | .on ring z, .south, ⟨above, last⟩ =>
    subst last
    exact ⟨(ring, z), Nat.lt_succ_self ring, by simp [cellEdges_last above, around]⟩
  | .south, .on ring z, ⟨above, last⟩ =>
    subst last
    exact ⟨(ring, z - 1), Nat.lt_succ_self ring, by simp [cellEdges_last above, around]⟩
  | .on ring z, .on ring' w, ⟨above, below, above', below', case⟩ =>
    rcases case with ⟨rfl, side⟩ | ⟨rfl, rfl | rfl⟩ | ⟨rfl, rfl | rfl⟩
    · exact exists_cell_of_level above below side
    · exact ⟨(ring, w), below, by simp [cellEdges_between above below', around]⟩
    · exact ⟨(ring, z), below, by simp [cellEdges_between above below', around]⟩
    · exact ⟨(ring', z - 1), below', by simp [cellEdges_between above' below, around]⟩
    · exact ⟨(ring', w), below', by simp [cellEdges_between above' below, around]⟩

/-- The cells of a sphere, ring by ring. -/
def places (segments rings : Nat) : List (Nat × ZMod segments) :=
  List.range rings ×ˢ columns segments

theorem edges_faces {segments rings : Nat} (two : 2 ≤ rings) :
    (faces segments rings).flatMap (Face.edges (weld segments rings))
      = (places segments rings).flatMap (cellEdges rings) := by
  simp only [faces, places, SProd.sprod, List.product, List.flatMap_assoc, List.flatMap_map,
    flatMap_columns]
  refine List.flatMap_congr fun ring hr => List.flatMap_congr fun segment hs => ?_
  exact edges_cellFaces two (List.mem_range.1 hr) (List.mem_range.1 hs)

theorem mem_edges_iff {segments rings : Nat} [NeZero segments] (two : 2 ≤ rings)
    {p q : Spot segments} :
    (p, q) ∈ (places segments rings).flatMap (cellEdges rings) ↔ Joined rings p q := by
  rw [List.mem_flatMap]
  constructor
  · rintro ⟨cell, mem, edge⟩
    exact joined_of_mem two (List.mem_range.1 (List.mem_product.1 mem).1) _ edge
  · intro joined
    obtain ⟨cell, hr, edge⟩ := exists_cell_of_joined two joined
    exact ⟨cell, List.mem_product.2 ⟨List.mem_range.2 hr, mem_columns _⟩, edge⟩

theorem closed_edges {segments rings : Nat} (three : 3 ≤ segments) (two : 2 ≤ rings) :
    Closed ((faces segments rings).flatMap (Face.edges (weld segments rings))) := by
  have : NeZero segments := ⟨by omega⟩
  rw [edges_faces two]
  refine closed_of_nodup ?_ fun (p, q) edge => ?_
  · exact nodup_flatMap_of_owner cellOf (List.nodup_range.product (nodup_columns segments))
      (fun cell _ => nodup_cellEdges three cell) fun cell _ => cellOf_eq three cell
  · exact (mem_edges_iff two).2 ((mem_edges_iff two).1 edge).symm

end Sphere

namespace Plane

def cellEdges : Nat × Nat → List ((Nat × Nat) × (Nat × Nat))
  | (row, column) =>
    around (row, column) (row + 1, column) (row + 1, column + 1)
      ++ around (row, column) (row + 1, column + 1) (row, column + 1)

theorem edges_cellFaces {cellsX row column : Nat} (hc : column < cellsX) :
    (cellFaces cellsX row column).flatMap (Face.edges (gridPlace cellsX))
      = cellEdges (row, column) := by
  obtain ⟨a, b, c, d⟩ := gridPlace_corners row hc
  simp only [cellFaces, cellEdges, Face.quad, List.flatMap_cons, List.flatMap_nil, List.append_nil,
    Face.edges, a, b, c, d]

theorem edges_faces (cellsX cellsZ : Nat) :
    (faces cellsX cellsZ).flatMap (Face.edges (gridPlace cellsX))
      = (cells cellsZ cellsX).flatMap cellEdges := by
  rw [faces, ← flatMap_cells, List.flatMap_assoc]
  exact List.flatMap_congr fun cell mem => edges_cellFaces (mem_cells.1 mem).2

theorem nodup_cellEdges (cell : Nat × Nat) : (cellEdges cell).Nodup := by
  obtain ⟨row, column⟩ := cell
  simp [cellEdges, around]

def cellOf : (Nat × Nat) × (Nat × Nat) → Nat × Nat
  | ((row, column), (row', column')) =>
    if row = row' then if column < column' then (row - 1, column) else (row, column')
    else if row < row' then (row, column) else (row', column - 1)

theorem cellOf_eq (cell : Nat × Nat) : ∀ e ∈ cellEdges cell, cellOf e = cell := by
  simp [cellEdges, around, cellOf]

theorem nodup_edges (cellsX cellsZ : Nat) : ((cells cellsZ cellsX).flatMap cellEdges).Nodup :=
  nodup_flatMap_of_owner cellOf (List.nodup_range.product List.nodup_range)
    (fun cell _ => nodup_cellEdges cell) fun cell _ => cellOf_eq cell

/-- Edges with a cell on their left, as it is run through: to the east it lies above, to the west
below, down on the right and up on the left. -/
def Joined (cellsX cellsZ : Nat) : Nat × Nat → Nat × Nat → Prop
  | (row, column), (row', column') =>
    row' = row ∧ column' = column + 1 ∧ 0 < row ∧ row ≤ cellsZ ∧ column < cellsX ∨
    row' = row ∧ column = column' + 1 ∧ row < cellsZ ∧ column' < cellsX ∨
    row' = row + 1 ∧ column' = column ∧ row < cellsZ ∧ column < cellsX ∨
    row = row' + 1 ∧ column' = column ∧ row' < cellsZ ∧ 0 < column ∧ column ≤ cellsX ∨
    row' = row + 1 ∧ column' = column + 1 ∧ row < cellsZ ∧ column < cellsX ∨
    row = row' + 1 ∧ column = column' + 1 ∧ row' < cellsZ ∧ column' < cellsX

theorem joined_of_mem {cellsX cellsZ : Nat} {cell : Nat × Nat} (mem : cell ∈ cells cellsZ cellsX) :
    ∀ e ∈ cellEdges cell, Joined cellsX cellsZ e.1 e.2 := by
  obtain ⟨row, column⟩ := cell
  obtain ⟨hr, hc⟩ := mem_cells.1 mem
  simp [cellEdges, around, Joined, hr, hc, Nat.succ_le_of_lt hr, Nat.succ_le_of_lt hc]

theorem exists_cell_of_joined {cellsX cellsZ : Nat} {p q : Nat × Nat}
    (h : Joined cellsX cellsZ p q) : ∃ cell ∈ cells cellsZ cellsX, (p, q) ∈ cellEdges cell := by
  obtain ⟨row, column⟩ := p
  obtain ⟨row', column'⟩ := q
  rcases h with ⟨rfl, rfl, above, below, hc⟩ | ⟨rfl, rfl, hr, hc⟩ | ⟨rfl, rfl, hr, hc⟩ |
    ⟨rfl, rfl, hr, right, left⟩ | ⟨rfl, rfl, hr, hc⟩ | ⟨rfl, rfl, hr, hc⟩
  · obtain ⟨before, rfl⟩ := Nat.exists_eq_add_of_le' above
    exact ⟨(before, column), mem_cells.2 ⟨below, hc⟩, by simp [cellEdges, around]⟩
  · exact ⟨(row', column'), mem_cells.2 ⟨hr, hc⟩, by simp [cellEdges, around]⟩
  · exact ⟨(row, column'), mem_cells.2 ⟨hr, hc⟩, by simp [cellEdges, around]⟩
  · obtain ⟨before, rfl⟩ := Nat.exists_eq_add_of_le' right
    exact ⟨(row', before), mem_cells.2 ⟨hr, left⟩, by simp [cellEdges, around]⟩
  · exact ⟨(row, column), mem_cells.2 ⟨hr, hc⟩, by simp [cellEdges, around]⟩
  · exact ⟨(row', column'), mem_cells.2 ⟨hr, hc⟩, by simp [cellEdges, around]⟩

theorem mem_edges_iff {cellsX cellsZ : Nat} {p q : Nat × Nat} :
    (p, q) ∈ (cells cellsZ cellsX).flatMap cellEdges ↔ Joined cellsX cellsZ p q := by
  rw [List.mem_flatMap]
  exact ⟨fun ⟨_, mem, edge⟩ => joined_of_mem mem _ edge, exists_cell_of_joined⟩

/-- The edge goes along one of the four sides of the grid. -/
def OnBorder (cellsX cellsZ : Nat) (p q : Nat × Nat) : Prop :=
  p.1 = 0 ∧ q.1 = 0 ∨ p.1 = cellsZ ∧ q.1 = cellsZ ∨ p.2 = 0 ∧ q.2 = 0 ∨
    p.2 = cellsX ∧ q.2 = cellsX

theorem joined_swap_iff {cellsX cellsZ : Nat} {p q : Nat × Nat} (h : Joined cellsX cellsZ p q) :
    Joined cellsX cellsZ q p ↔ ¬OnBorder cellsX cellsZ p q := by
  obtain ⟨row, column⟩ := p
  obtain ⟨row', column'⟩ := q
  rcases h with ⟨rfl, rfl, above, below, hc⟩ | ⟨rfl, rfl, hr, hc⟩ | ⟨rfl, rfl, hr, hc⟩ |
    ⟨rfl, rfl, hr, right, left⟩ | ⟨rfl, rfl, hr, hc⟩ | ⟨rfl, rfl, hr, hc⟩
  all_goals grind [Joined, OnBorder]

end Plane

section
variable {α β : Type}

theorem Mesh.edges_map (place : α → β) (weld : Nat → α) (m : Mesh) :
    m.edges (place ∘ weld) = (m.edges weld).map (Prod.map place place) := by
  rw [Mesh.edges, Mesh.edges, List.map_flatMap]
  rfl

end

theorem Sphere.closed_toMesh (ball : Sphere)
    (few : (ball.ringCount + 1) * (ball.segmentCount + 1) < 2 ^ 32) :
    Closed (ball.toMesh.edges (weld ball.segmentCount ball.ringCount)) := by
  have edges : ball.toMesh.edges (weld ball.segmentCount ball.ringCount)
      = (faces ball.segmentCount ball.ringCount).flatMap
        (Face.edges (weld ball.segmentCount ball.ringCount)) :=
    Mesh.edges_ofSurface _ few below_faces
  rw [edges]
  exact closed_edges (Nat.le_max_left ..) (Nat.le_max_left ..)

theorem Plane.edges_toMesh (sheet : Plane)
    (few : (sheet.rowCount + 1) * (sheet.columnCount + 1) < 2 ^ 32) :
    (sheet.toMesh.edges id).map
        (Prod.map (gridPlace sheet.columnCount) (gridPlace sheet.columnCount))
      = (cells sheet.rowCount sheet.columnCount).flatMap cellEdges := by
  rw [← Mesh.edges_map, Function.comp_id, ← edges_faces]
  exact Mesh.edges_ofSurface _ few below_faces

theorem Plane.nodup_toMesh (sheet : Plane)
    (few : (sheet.rowCount + 1) * (sheet.columnCount + 1) < 2 ^ 32) :
    (sheet.toMesh.edges id).Nodup :=
  .of_map _ (sheet.edges_toMesh few ▸ nodup_edges ..)

theorem Plane.mem_toMesh_iff (sheet : Plane)
    (few : (sheet.rowCount + 1) * (sheet.columnCount + 1) < 2 ^ 32) (e : Nat × Nat) :
    e ∈ sheet.toMesh.edges id ↔ Joined sheet.columnCount sheet.rowCount
      (gridPlace sheet.columnCount e.1) (gridPlace sheet.columnCount e.2) := by
  have apart := gridPlace_injective sheet.columnCount
  rw [← mem_edges_iff, ← sheet.edges_toMesh few]
  exact (List.mem_map_of_injective (apart.prodMap apart)).symm

/-- Spheres are closed and planes are sheets, both wound one way everywhere. On a sphere, with its
last column put on the first and each pole put in one place, every edge occurs once and once the
other way round. On a plane no edge occurs twice, and the other way round occur just those that are
not on the border. -/
theorem wound_consistently (ball : Sphere) (sheet : Plane) :
    ((ball.segmentCount + 1) * (ball.ringCount + 1) < 2 ^ 32 →
      Closed (ball.toMesh.edges (Sphere.weld ball.segmentCount ball.ringCount))) ∧
    ((sheet.columnCount + 1) * (sheet.rowCount + 1) < 2 ^ 32 →
      (∀ e, (sheet.toMesh.edges id).count e ≤ 1) ∧
      ∀ e ∈ sheet.toMesh.edges id, e.swap ∈ sheet.toMesh.edges id ↔
        ¬Plane.OnBorder sheet.columnCount sheet.rowCount (gridPlace sheet.columnCount e.1)
          (gridPlace sheet.columnCount e.2)) := by
  refine ⟨fun few => ?_, fun few => ?_⟩
  · rw [Nat.mul_comm] at few
    exact ball.closed_toMesh few
  · rw [Nat.mul_comm] at few
    refine ⟨List.nodup_iff_count_le_one.1 (sheet.nodup_toMesh few), fun e edge => ?_⟩
    rw [sheet.mem_toMesh_iff few]
    exact Plane.joined_swap_iff ((sheet.mem_toMesh_iff few e).1 edge)

/-- The coarsest sphere, which is two fans, is closed. On the coarsest plane there are triangles on
both sides of the diagonal, and on one side of an edge on the border. -/
theorem wound_coarse :
    (4 * 3 < 2 ^ 32 ∧ Closed ((Sphere.mk 1 3 2).toMesh.edges (Sphere.weld 3 2))) ∧
    2 * 2 < 2 ^ 32 ∧
      (0, 3) ∈ (Plane.mk 1 1 1 1).toMesh.edges id ∧
      (3, 0) ∈ (Plane.mk 1 1 1 1).toMesh.edges id ∧
      (0, 2) ∈ (Plane.mk 1 1 1 1).toMesh.edges id ∧
      (2, 0) ∉ (Plane.mk 1 1 1 1).toMesh.edges id := by
  obtain ⟨ball, sheet⟩ := wound_consistently ⟨1, 3, 2⟩ ⟨1, 1, 1, 1⟩
  obtain ⟨-, back⟩ := sheet (by decide)
  have diagonal : (0, 3) ∈ (Plane.mk 1 1 1 1).toMesh.edges id := by decide
  have border : (0, 2) ∈ (Plane.mk 1 1 1 1).toMesh.edges id := by decide
  have inside : ¬Plane.OnBorder 1 1 (gridPlace 1 0) (gridPlace 1 3) := by
    simp [Plane.OnBorder, gridPlace]
  have outside : Plane.OnBorder 1 1 (gridPlace 1 0) (gridPlace 1 2) := by
    simp [Plane.OnBorder, gridPlace]
  exact ⟨⟨by decide, ball (by decide)⟩, by decide, diagonal, (back _ diagonal).2 inside, border,
    fun edge => (back _ border).1 edge outside⟩

end MeshFlow
