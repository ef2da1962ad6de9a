import MeshFlow.Mesh.Validity
import MeshFlow.Proofs.Fitting

set_option autoImplicit false

/-!
# Meshes that stay valid

Whatever blocks do to meshes, valid meshes come out of it: the shapes count their vertices right,
joining brings every buffer to the length of the joined positions and moves indices up by no more
than there are vertices before them, and all else keeps lengths or fills them up. An index of valid
meshes does not fit only if there are more vertices than there are indices.
-/
namespace MeshFlow
open Space

theorem length_flatMap_of_length {α β : Type} (f : α → List β) (n : Nat)
    (h : ∀ a, (f a).length = n) (xs : List α) : (xs.flatMap f).length = xs.length * n := by
  simp [List.length_flatMap, h]

theorem length_triples {α : Type} : (xs : List α) → (triples xs).length = xs.length / 3
  | a :: b :: c :: rest => by
    rw [triples_cons, List.length_cons, length_triples rest]
    simp only [List.length_cons]
    omega
  | [] | [_] | [_, _] => by simp [triples, triplesAfter]

theorem mem_of_mem_triples {α : Type} {t : α × α × α} :
    {xs : List α} → t ∈ triples xs → t.1 ∈ xs ∧ t.2.1 ∈ xs ∧ t.2.2 ∈ xs
  | a :: b :: c :: rest, h => by
    rw [triples_cons, List.mem_cons] at h
    rcases h with rfl | h
    · simp
    · obtain ⟨first, second, third⟩ := mem_of_mem_triples h
      simp [first, second, third]

theorem length_flatMap_triples {α : Type} {f : α × α × α → List α}
    (three : ∀ t, (f t).length = 3) (xs : List α) :
    ((triples xs).flatMap f ++ afterTriples xs).length = xs.length := by
  rw [List.length_append, length_flatMap_of_length f 3 three, length_triples, afterTriples,
    List.length_drop]
  omega

theorem length_mapVectors (f : Vec3 → Vec3) (xs : List Float32) :
    (mapVectors f xs).length = xs.length :=
  length_flatMap_triples (fun _ => rfl) xs

theorem length_mapLeadingAfter (f : Vec3 → Vec3) (done : List Float32) :
    (xs : List Float32) → (mapLeadingAfter f done xs).length = done.length + xs.length
  | x :: y :: z :: w :: rest => by
    rw [mapLeadingAfter, length_mapLeadingAfter]
    simp only [List.length_cons, List.length_append, List.length_reverse, Vec3.toList,
      List.length_nil]
    omega
  | [] | [_] | [_, _] | [_, _, _] => by simp [mapLeadingAfter]

theorem length_mapLeadingVectors (f : Vec3 → Vec3) (xs : List Float32) :
    (mapLeadingVectors f xs).length = xs.length :=
  (length_mapLeadingAfter f [] xs).trans (Nat.zero_add _)

namespace Mesh

theorem attributeFault?_eq_none_iff (m : Mesh) (k : Attribute) :
    m.attributeFault? k = none ↔
      ∀ xs, m.buffer? k = some xs → xs.length = m.vertexCount * k.stride := by
  rw [attributeFault?]
  cases m.buffer? k <;> simp

theorem indexFault?_eq_none_iff (m : Mesh) :
    m.indexFault? = none ↔ ∀ indices, m.indices = some indices →
      indices.length % 3 = 0 ∧ ∀ i ∈ indices, i.toNat < m.vertexCount := by
  rw [indexFault?]
  cases m.indices with
  | none => simp
  | some indices =>
    simp only [Option.bind_some, Option.some.injEq, forall_eq']
    split
    · rename_i odd
      simp [odd]
    · rename_i whole
      simp [not_not.1 whole]

theorem validate_eq_ok_iff (m : Mesh) : m.validate = .ok () ↔ m.Valid := by
  have attributes : Attribute.optional.findSome? m.attributeFault? = none ↔
      ∀ k ∈ Attribute.optional, ∀ xs, m.buffer? k = some xs →
        xs.length = m.vertexCount * k.stride := by
    rw [List.findSome?_eq_none_iff]
    exact forall₂_congr fun k _ => m.attributeFault?_eq_none_iff k
  have indices := m.indexFault?_eq_none_iff
  constructor
  · intro h
    rw [validate] at h
    split at h
    · cases h
    · rename_i whole
      split at h
      · cases h
      · rename_i lengths
        split at h
        · cases h
        · rename_i within
          exact ⟨not_not.1 whole, attributes.1 lengths, fun is his => (indices.1 within is his).1,
            fun is his => (indices.1 within is his).2⟩
  · intro h
    rw [validate, if_neg (not_not.2 h.whole_vertices), attributes.2 h.attribute_length,
      indices.2 fun is his => ⟨h.whole_triangles is his, h.index_lt is his⟩]

theorem valid_ofPoints (points : List Vec3) : (ofPoints points).Valid where
  whole_vertices := by
    have positions : (ofPoints points).positions.length = points.length * 3 :=
      length_flatMap_of_length Vec3.toList 3 (fun _ => rfl) points
    rw [positions]
    exact Nat.mul_mod_left ..
  attribute_length k hk xs h := by
    cases k with
    | position => exact absurd hk (by decide)
    | normal | uv | color | tangent => cases h
  whole_triangles _ h := by cases h
  index_lt _ h := by cases h

end Mesh

def Face.Below (count : Nat) (f : Face) : Prop := f.a < count ∧ f.b < count ∧ f.c < count

theorem Face.below_quad {count a b c d : Nat} (ha : a < count) (hb : b < count) (hc : c < count)
    (hd : d < count) : ∀ f ∈ Face.quad a b c d, f.Below count := by
  intro f hf
  simp only [Face.quad, List.mem_cons, List.not_mem_nil, or_false] at hf
  rcases hf with rfl | rfl
  · exact ⟨ha, hb, hc⟩
  · exact ⟨ha, hc, hd⟩

theorem Face.toNat_lt_of_mem_toIndices {count : Nat} {f : Face} (h : f.Below count) {i : UInt32}
    (mem : i ∈ f.toIndices) : i.toNat < count := by
  have ofNat : ∀ n < count, (UInt32.ofNat n).toNat < count := fun n hn =>
    Nat.lt_of_le_of_lt (Nat.mod_le ..) hn
  simp only [Face.toIndices, List.mem_cons, List.not_mem_nil, or_false] at mem
  rcases mem with rfl | rfl | rfl
  · exact ofNat _ h.1
  · exact ofNat _ h.2.1
  · exact ofNat _ h.2.2

namespace Mesh

theorem length_positions_ofSurface (vertices : List Vertex) (faces : List Face) :
    (ofSurface vertices faces).positions.length = vertices.length * 3 :=
  length_flatMap_of_length (fun v : Vertex => v.position.toList) 3 (fun _ => rfl) vertices

theorem vertexCount_ofSurface (vertices : List Vertex) (faces : List Face) :
    (ofSurface vertices faces).vertexCount = vertices.length := by
  rw [vertexCount, length_positions_ofSurface]
  exact Nat.mul_div_cancel _ (by decide)

theorem valid_ofSurface {vertices : List Vertex} {faces : List Face}
    (h : ∀ f ∈ faces, f.Below vertices.length) : (ofSurface vertices faces).Valid := by
  constructor
  case whole_vertices =>
    rw [length_positions_ofSurface]
    exact Nat.mul_mod_left ..
  case attribute_length =>
    intro k hk xs hxs
    rw [vertexCount_ofSurface]
    cases k with
    | position => exact absurd hk (by decide)
    | normal =>
      cases hxs
      exact length_flatMap_of_length (fun v : Vertex => v.normal.toList) 3 (fun _ => rfl) vertices
    | uv =>
      cases hxs
      exact length_flatMap_of_length (fun v : Vertex => v.uv.toList) 2 (fun _ => rfl) vertices
    | color | tangent => cases hxs
  case whole_triangles =>
    rintro _ ⟨⟩
    rw [length_flatMap_of_length Face.toIndices 3 fun _ => rfl]
    exact Nat.mul_mod_left ..
  case index_lt =>
    rintro _ ⟨⟩ i hi
    obtain ⟨f, hf, mem⟩ := List.mem_flatMap.1 hi
    rw [vertexCount_ofSurface]
    exact Face.toNat_lt_of_mem_toIndices (h f hf) mem

end Mesh

theorem Cuboid.valid_toMesh (box : Cuboid) : box.toMesh.Valid := by
  have below : ∀ f ∈ Cuboid.faces, f.Below 24 := by
    simp only [Face.Below]
    decide
  exact Mesh.valid_ofSurface below

theorem grid_lt {row rows column columns : Nat} (hr : row < rows) (hc : column < columns) :
    row * (columns + 1) + column + (columns + 1) + 1 < (rows + 1) * (columns + 1) := by
  have : (row + 1) * (columns + 1) ≤ rows * (columns + 1) := Nat.mul_le_mul_right _ hr
  rw [Nat.succ_mul] at this ⊢
  omega

/-- A triangle of the cell behind vertex `a`, in a grid of rows that are `stride` vertices long. -/
def Face.InCell (stride a : Nat) (f : Face) : Prop :=
  f = ⟨a, a + stride, a + stride + 1⟩ ∨ f = ⟨a, a + stride + 1, a + 1⟩ ∨
    f = ⟨a, a + stride, a + 1⟩

theorem Face.InCell.below {f : Face} {row rows column columns : Nat} (hr : row < rows)
    (hc : column < columns) (h : f.InCell (columns + 1) (row * (columns + 1) + column)) :
    f.Below ((rows + 1) * (columns + 1)) := by
  have corner := grid_lt hr hc
  rcases h with rfl | rfl | rfl <;> refine ⟨?_, ?_, ?_⟩ <;> dsimp only <;> omega

namespace Sphere

theorem length_vertices (radius : Float32) (segments rings : Nat) :
    ((List.range (rings + 1)).flatMap (ringVertices radius segments rings)).length
      = (rings + 1) * (segments + 1) := by
  rw [length_flatMap_of_length _ (segments + 1) fun ring => by simp [ringVertices],
    List.length_range]

theorem exists_cell {segments rings : Nat} {f : Face} (h : f ∈ faces segments rings) :
    ∃ ring < rings, ∃ segment < segments,
      f.InCell (segments + 1) (ring * (segments + 1) + segment) := by
  simp only [faces, List.mem_flatMap, List.mem_range] at h
  obtain ⟨ring, hr, segment, hs, h⟩ := h
  refine ⟨ring, hr, segment, hs, ?_⟩
  rw [cellFaces] at h
  split_ifs at h with first last
  · exact .inl (List.mem_singleton.1 h)
  · exact .inr (.inr (List.mem_singleton.1 h))
  · simp only [Face.quad, List.mem_cons, List.not_mem_nil, or_false] at h
    exact h.imp_right .inl

theorem below_faces {segments rings : Nat} :
    ∀ f ∈ faces segments rings, f.Below ((rings + 1) * (segments + 1)) := by
  intro f hf
  obtain ⟨ring, hr, segment, hs, cell⟩ := exists_cell hf
  exact cell.below hr hs

theorem valid_toMesh (ball : Sphere) : ball.toMesh.Valid :=
  Mesh.valid_ofSurface (by rw [length_vertices]; exact below_faces)

end Sphere

namespace Plane

theorem length_vertices (sheet : Plane) (cellsX cellsZ : Nat) :
    ((List.range (cellsZ + 1)).flatMap (sheet.rowVertices cellsX cellsZ)).length
      = (cellsZ + 1) * (cellsX + 1) := by
  rw [length_flatMap_of_length _ (cellsX + 1) fun row => by simp [rowVertices],
    List.length_range]

theorem exists_cell {cellsX cellsZ : Nat} {f : Face} (h : f ∈ faces cellsX cellsZ) :
    ∃ row < cellsZ, ∃ column < cellsX, f.InCell (cellsX + 1) (row * (cellsX + 1) + column) := by
  simp only [faces, cellFaces, Face.quad, List.mem_flatMap, List.mem_range, List.mem_cons,
    List.not_mem_nil, or_false] at h
  obtain ⟨row, hr, column, hc, h⟩ := h
  exact ⟨row, hr, column, hc, h.imp_right .inl⟩

theorem below_faces {cellsX cellsZ : Nat} :
    ∀ f ∈ faces cellsX cellsZ, f.Below ((cellsZ + 1) * (cellsX + 1)) := by
  intro f hf
  obtain ⟨row, hr, column, hc, cell⟩ := exists_cell hf
  exact cell.below hr hc

theorem valid_toMesh (sheet : Plane) : sheet.toMesh.Valid :=
  Mesh.valid_ofSurface (by rw [length_vertices]; exact below_faces)

end Plane

namespace Cylinder

theorem length_vertices (tube : Cylinder) (segments : Nat) :
    (tube.vertices segments).length = 4 * (segments + 1) := by
  have columns : ((List.range (segments + 1)).flatMap
      (columnVertices tube.radius (tube.height / 2) segments)).length = (segments + 1) * 2 := by
    rw [length_flatMap_of_length _ 2 fun _ => rfl, List.length_range]
  simp only [vertices, List.length_append, columns, capVertices, List.length_cons, List.length_map,
    List.length_range]
  omega

theorem below_capFaces {count centre segments : Nat} (room : centre + segments < count)
    (below : Bool) : ∀ f ∈ capFaces below centre segments, f.Below count := by
  intro f hf
  obtain ⟨step, hs, rfl⟩ := List.mem_map.1 hf
  have small := List.mem_range.1 hs
  have next : (step + 1) % segments < segments := Nat.mod_lt _ (Nat.zero_lt_of_lt small)
  dsimp only
  split <;> refine ⟨?_, ?_, ?_⟩ <;> dsimp only <;> omega

theorem below_faces {lowerBelow upperBelow : Bool} {segments : Nat} :
    ∀ f ∈ faces lowerBelow upperBelow segments, f.Below (4 * (segments + 1)) := by
  intro f hf
  rcases List.mem_append.1 hf with cap | side
  · rcases List.mem_append.1 cap with lower | upper
    · exact below_capFaces (by omega) _ f lower
    · exact below_capFaces (by omega) _ f upper
  · obtain ⟨step, hs, hf⟩ := List.mem_flatMap.1 side
    have small := List.mem_range.1 hs
    exact Face.below_quad (by omega) (by omega) (by omega) (by omega) f hf

theorem valid_toMesh (tube : Cylinder) : tube.toMesh.Valid :=
  Mesh.valid_ofSurface (by rw [length_vertices]; exact below_faces)

end Cylinder

namespace Mesh
variable {m m' : Mesh}

/-- A mesh is valid if it has the positions of a valid one, at least by their number, with buffers
and indices that agree with them. -/
theorem Valid.of_positions (h : m.Valid) (positions : m'.positions.length = m.positions.length)
    (attribute_length : ∀ k ∈ Attribute.optional, ∀ xs, m'.buffer? k = some xs →
      xs.length = m.vertexCount * k.stride)
    (indices : ∀ is, m'.indices = some is →
      is.length % 3 = 0 ∧ ∀ i ∈ is, i.toNat < m.vertexCount) : m'.Valid := by
  have count : m'.vertexCount = m.vertexCount := by rw [vertexCount, positions, vertexCount]
  refine ⟨positions ▸ h.whole_vertices, ?_, fun is his => (indices is his).1, ?_⟩
  · rw [count]
    exact attribute_length
  · rw [count]
    exact fun is his => (indices is his).2

theorem Valid.indices (h : m.Valid) : ∀ is, m.indices = some is →
    is.length % 3 = 0 ∧ ∀ i ∈ is, i.toNat < m.vertexCount := fun is his =>
  ⟨h.whole_triangles is his, h.index_lt is his⟩

theorem mem_of_mem_reverseTriangles {indices : List UInt32} {i : UInt32}
    (h : i ∈ Block.reverseTriangles indices) : i ∈ indices := by
  rcases List.mem_append.1 h with whole | rest
  · obtain ⟨t, ht, mem⟩ := List.mem_flatMap.1 whole
    obtain ⟨a, b, c⟩ := mem_of_mem_triples ht
    simp only [List.mem_cons, List.not_mem_nil, or_false] at mem
    rcases mem with rfl | rfl | rfl
    · exact a
    · exact c
    · exact b
  · exact List.mem_of_mem_drop rest

theorem Valid.reversed (h : m.Valid) :
    Valid { m with indices := m.indices.map Block.reverseTriangles } := by
  refine h.of_positions rfl h.attribute_length fun is his => ?_
  obtain ⟨given, found, rfl⟩ := Option.map_eq_some_iff.1 his
  obtain ⟨whole, within⟩ := h.indices given found
  refine ⟨?_, fun i hi => within i (mem_of_mem_reverseTriangles hi)⟩
  rw [Block.reverseTriangles, length_flatMap_triples fun _ => rfl]
  exact whole

theorem length_normalSums (m : Mesh) : m.normalSums.length = m.vertexCount := by
  have sums : ∀ (faces : List (UInt32 × UInt32 × UInt32)) (sums : Array Vec3),
      (faces.foldl (addFaceNormal m.points.toArray) sums).size = sums.size := by
    intro faces
    induction faces with
    | nil => exact fun _ => rfl
    | cons face rest ih =>
      intro sums
      rw [List.foldl_cons, ih, addFaceNormal]
      split <;> simp
  rw [normalSums, Array.length_toList, sums, Array.size_replicate]

theorem Valid.computeNormals (h : m.Valid) : m.computeNormals.Valid := by
  rw [Mesh.computeNormals]
  split
  · exact h
  · refine h.of_positions rfl (fun k hk xs hxs => ?_) h.indices
    cases k with
    | normal =>
      cases hxs
      rw [length_flatMap_of_length _ 3 fun _ => rfl, length_normalSums]
      rfl
    | position | uv | color | tangent => exact h.attribute_length _ hk xs hxs

theorem Valid.transform (h : m.Valid) (t : Matrix) : (m.transform t).Valid := by
  refine h.of_positions (length_mapVectors ..) (fun k hk xs hxs => ?_) h.indices
  cases k with
  | normal =>
    obtain ⟨given, found, rfl⟩ := Option.map_eq_some_iff.1 hxs
    rw [length_mapVectors]
    exact h.attribute_length _ hk given found
  | tangent =>
    obtain ⟨given, found, rfl⟩ := Option.map_eq_some_iff.1 hxs
    rw [length_mapLeadingVectors]
    exact h.attribute_length _ hk given found
  | position => exact absurd hk (by decide)
  | uv | color => exact h.attribute_length _ hk xs hxs

theorem toNat_add_ofNat_le (i : UInt32) (n : Nat) : (i + UInt32.ofNat n).toNat ≤ i.toNat + n := by
  rw [UInt32.toNat_add]
  refine (Nat.mod_le ..).trans (Nat.add_le_add_left ?_ _)
  exact Nat.mod_le ..

theorem Valid.shiftedIndices (h : m.Valid) (base : Nat) :
    (m.shiftedIndices base).length % 3 = 0 ∧
      ∀ i ∈ m.shiftedIndices base, i.toNat < base + m.vertexCount := by
  rw [Mesh.shiftedIndices]
  cases found : m.indices with
  | none => simp
  | some indices =>
    obtain ⟨whole, within⟩ := h.indices indices found
    refine ⟨by simpa using whole, fun i hi => ?_⟩
    obtain ⟨j, hj, rfl⟩ := List.mem_map.1 hi
    have := within j hj
    have := toNat_add_ofNat_le j base
    omega

theorem Valid.append {a b : Mesh} (ha : a.Valid) (hb : b.Valid) : (a ++ b).Valid := by
  constructor
  case whole_vertices =>
    rw [positions_append, List.length_append, length_wholePositions]
    have := ha.whole_vertices
    omega
  case attribute_length =>
    intro k hk xs hxs
    have other : k ≠ .position := by
      rintro rfl
      exact absurd hk (by decide)
    rw [buffer?_append other, joinedBuffer?] at hxs
    split at hxs
    · cases hxs
      simp [length_entries, vertexCount_append, Nat.add_mul]
    · cases hxs
  all_goals
    intro indices his
    change joinedIndices? [a, b] = some indices at his
    have joined := getD_joinedIndices? a b
    rw [his, Option.getD_some] at joined
    subst joined
    obtain ⟨whole, within⟩ := ha.shiftedIndices 0
    obtain ⟨whole', within'⟩ := hb.shiftedIndices a.vertexCount
  case whole_triangles =>
    rw [List.length_append]
    omega
  case index_lt =>
    intro i hi
    rw [vertexCount_append]
    rcases List.mem_append.1 hi with first | second
    · have := within i first
      omega
    · exact within' i second

theorem Valid.mergeAll {ms : List Mesh} (all : ∀ part ∈ ms, part.Valid)
    (merged : mergeAll? ms = some m) : m.Valid := by
  cases ms with
  | nil => cases merged
  | cons first rest =>
    cases merged
    rw [merge_eq_foldl]
    have start := all first (List.mem_cons_self ..)
    replace all : ∀ part ∈ rest, part.Valid :=
      fun part mem => all part (List.mem_cons_of_mem _ mem)
    induction rest generalizing first with
    | nil => exact start
    | cons second rest ih =>
      refine ih (first ++ second) ?_ fun part mem => all part (List.mem_cons_of_mem _ mem)
      exact start.append (all second (List.mem_cons_self ..))

/-- An index of a valid mesh points to one of its vertices, so that it overshoots only where these
reach past the last index. -/
theorem Valid.lt_of_overshoots (h : m.Valid) {base : Nat} (beyond : m.overshoots base) :
    2 ^ 32 < base + m.vertexCount := by
  rw [overshoots] at beyond
  cases found : m.indices with
  | none => simp [found] at beyond
  | some indices =>
    rw [found, Option.getD_some, List.any_eq_true] at beyond
    obtain ⟨i, mem, beyond⟩ := beyond
    have within := (h.indices indices found).2 i mem
    have offset : (UInt32.ofNat base).toNat ≤ base := Nat.mod_le ..
    have past := of_decide_eq_true beyond
    change 2 ^ 32 ≤ _ at past
    omega

theorem lt_of_overshootsAfter {ms : List Mesh} (all : ∀ part ∈ ms, part.Valid) {base : Nat}
    (beyond : overshootsAfter base ms) : 2 ^ 32 < base + totalVertices ms := by
  induction ms generalizing base with
  | nil => cases beyond
  | cons first rest ih =>
    have total : totalVertices (first :: rest) = first.vertexCount + totalVertices rest := rfl
    rw [total]
    rcases Bool.or_eq_true_iff.1 beyond with here | there
    · have := (all first (List.mem_cons_self ..)).lt_of_overshoots here
      omega
    · have := ih (fun part mem => all part (List.mem_cons_of_mem _ mem)) there
      omega

theorem length_overwriteAfter (stride : Nat) (done : List Float32)
    (entries : List (Option (List Float32))) (xs : List Float32)
    (fits : ∀ e ∈ entries, ∀ ys : List Float32, e = some ys → ys.length = stride)
    (room : entries.length * stride ≤ xs.length) :
    (overwriteAfter stride done entries xs).length = done.length + xs.length := by
  induction entries generalizing done xs with
  | nil => simp [overwriteAfter]
  | cons entry rest ih =>
    rw [List.length_cons, Nat.succ_mul] at room
    have length : (entry.getD (xs.take stride)).length = stride := by
      cases entry with
      | some ys => exact fits _ (List.mem_cons_self ..) ys rfl
      | none =>
        rw [Option.getD_none, List.length_take]
        omega
    rw [overwriteAfter, ih _ _ (fun e mem => fits e (List.mem_cons_of_mem _ mem))]
    · rw [List.length_append, List.length_reverse, length, List.length_drop]
      omega
    · rw [List.length_drop]
      omega

theorem Valid.length_wholeBuffer (h : m.Valid) (k : Attribute) :
    (m.wholeBuffer k).length = m.vertexCount * k.stride := by
  have filled : ∀ k ∈ Attribute.optional, (filledUp (m.vertexCount * k.stride) k.fill
      ((m.buffer? k).getD [])).length = m.vertexCount * k.stride := by
    intro k hk
    rw [filledUp, List.length_append, List.length_replicate]
    cases found : m.buffer? k with
    | none => simp
    | some xs =>
      have := h.attribute_length k hk xs found
      simp [this]
  cases k with
  | position =>
    have := h.whole_vertices
    change m.positions.length = m.positions.length / 3 * 3
    omega
  | normal | uv | color | tangent => exact filled _ (by decide)

theorem Valid.withBuffer (h : m.Valid) {k : Attribute} {xs : List Float32}
    (length : xs.length = m.vertexCount * k.stride) : (m.withBuffer xs k).Valid := by
  cases k with
  | position =>
    refine h.of_positions (length.trans (h.length_wholeBuffer .position).symm)
      (fun k hk ys hys => ?_) h.indices
    cases k with
    | position => exact absurd hk (by decide)
    | normal | uv | color | tangent => exact h.attribute_length _ hk ys hys
  | normal | uv | color | tangent =>
    refine h.of_positions rfl (fun k' hk ys hys => ?_) h.indices
    cases k' <;> first
      | exact h.attribute_length _ hk ys hys
      | (cases hys; exact length)

theorem Valid.overwrite (h : m.Valid) (k : Attribute) {entries : List (Option (List Float32))}
    (all : entries.length = m.vertexCount)
    (fits : ∀ e ∈ entries, ∀ xs : List Float32, e = some xs → xs.length = k.stride) :
    (m.overwrite k entries).Valid := by
  refine h.withBuffer ?_
  have whole := h.length_wholeBuffer k
  rw [length_overwriteAfter _ _ _ _ fits (by rw [all, whole])]
  simpa using whole

theorem closed_valid : Closed Valid fun vertices => 2 ^ 32 < vertices where
  stamped _ _ h := h.of_positions rfl h.attribute_length h.indices
  points := valid_ofPoints
  cuboid := Cuboid.valid_toMesh
  sphere := Sphere.valid_toMesh
  plane := Plane.valid_toMesh
  cylinder := Cylinder.valid_toMesh
  reversed _ h := h.reversed
  computeNormals _ h := h.computeNormals
  transform _ t h := h.transform t
  mergeAll _ _ all merged := Valid.mergeAll all merged
  overwrite _ k _ h all fits := h.overwrite k all fits
  shaped _ many := many
  merged _ all beyond := by
    have := lt_of_overshootsAfter all beyond
    rwa [Nat.zero_add] at this

end Mesh
end MeshFlow
