import MeshFlow.Proofs.Validity

set_option autoImplicit false

/-!
# Joined meshes, part by part

Valid meshes that are joined stand in the whole one behind the other, each in a span of vertices
and a span of indices of its own. What is put behind a part later does not reach into its spans:
an attribute that comes in late is filled in for the vertices that are there, one that is missing is
filled up, and indices are moved by the vertices before them alone. So every part can be cut out
again.
-/
namespace MeshFlow

theorem slice?_append {α : Type} (before xs after : List α) {start stop : Nat}
    (hstart : start = before.length) (hstop : stop = before.length + xs.length) :
    slice? start stop (before ++ (xs ++ after)) = some xs := by
  subst hstart hstop
  have fits : before.length ≤ before.length + xs.length ∧
      before.length + xs.length ≤ (before ++ (xs ++ after)).length := by
    simp only [List.length_append]
    omega
  rw [slice?, if_pos fits]
  simp

namespace Mesh

def totalIndices (parts : List Mesh) : Nat := (parts.map fun m => (m.indices.getD []).length).sum

/-- Where the vertices of a mesh stand behind those of the meshes before it. -/
def vertexSpan (before : List Mesh) (m : Mesh) : Span :=
  ⟨totalVertices before, totalVertices before + m.vertexCount⟩

def indexSpan (before : List Mesh) (m : Mesh) : Span :=
  ⟨totalIndices before, totalIndices before + (m.indices.getD []).length⟩

theorem totalVertices_cons (m : Mesh) (rest : List Mesh) :
    totalVertices (m :: rest) = m.vertexCount + totalVertices rest := rfl

theorem totalVertices_append (parts parts' : List Mesh) :
    totalVertices (parts ++ parts') = totalVertices parts + totalVertices parts' := by
  induction parts with
  | nil => simp [totalVertices]
  | cons m rest ih =>
    rw [List.cons_append, totalVertices_cons, totalVertices_cons, ih, Nat.add_assoc]

theorem totalVertices_eq_mul {parts : List Mesh} {n : Nat} (all : ∀ m ∈ parts, m.vertexCount = n) :
    totalVertices parts = parts.length * n := by
  induction parts with
  | nil => simp [totalVertices]
  | cons m rest ih =>
    rw [totalVertices_cons, all m (List.mem_cons_self ..),
      ih fun m' mem => all m' (List.mem_cons_of_mem _ mem), List.length_cons, Nat.succ_mul,
      Nat.add_comm]

theorem length_flatMap_vertices {α : Type} {f : Mesh → List α} {n : Nat} (parts : List Mesh)
    (runs : ∀ m ∈ parts, (f m).length = m.vertexCount * n) :
    (parts.flatMap f).length = totalVertices parts * n := by
  induction parts with
  | nil => simp [totalVertices]
  | cons m rest ih =>
    have first := runs m (by simp)
    have others := ih fun p hp => runs p (by simp [hp])
    rw [List.flatMap_cons, List.length_append, first, others, totalVertices_cons, Nat.add_mul]

theorem slice?_flatMap_vertices {α : Type} {f : Mesh → List α} {n : Nat}
    {before after : List Mesh} {part : Mesh}
    (runs : ∀ m ∈ before ++ part :: after, (f m).length = m.vertexCount * n) :
    slice? ((vertexSpan before part).start * n) ((vertexSpan before part).stop * n)
      ((before ++ part :: after).flatMap f) = some (f part) := by
  have first := length_flatMap_vertices before fun m hm => runs m (by simp [hm])
  have own := runs part (by simp)
  rw [List.flatMap_append, List.flatMap_cons]
  refine slice?_append _ _ _ first.symm ?_
  rw [first, own]
  exact Nat.add_mul ..

/-- The buffer of an attribute, or fills for all vertices where the mesh does not have it. -/
def filled (m : Mesh) (k : Attribute) : List Float32 :=
  (m.buffer? k).getD (List.replicate (m.vertexCount * k.stride) k.fill)

theorem Valid.length_filled {m : Mesh} (h : m.Valid) {k : Attribute} (hk : k ∈ Attribute.optional) :
    (m.filled k).length = m.vertexCount * k.stride := by
  rw [filled]
  cases found : m.buffer? k with
  | none => simp
  | some xs => exact h.attribute_length k hk xs found

theorem Valid.length_positions {m : Mesh} (h : m.Valid) :
    m.positions.length = m.vertexCount * 3 := by
  have := h.whole_vertices
  rw [vertexCount]
  omega

theorem Valid.entries_eq {m : Mesh} (h : m.Valid) {k : Attribute} (hk : k ∈ Attribute.optional) :
    m.entries k = m.filled k := by
  rw [entries, filled]
  cases found : m.buffer? k with
  | none => exact fitted_nil ..
  | some xs => exact fitted_of_length _ (h.attribute_length k hk xs found)

theorem Valid.wholePositions_eq {m : Mesh} (h : m.Valid) : m.wholePositions = m.positions :=
  wholePositions_of_whole h.whole_vertices

/-- The indices of meshes that stand behind `base` vertices, each moved up by the vertices before
its mesh. -/
def offsetIndices : (base : Nat) → List Mesh → List Nat
  | _, [] => []
  | base, m :: rest =>
    (m.indices.getD []).map (fun i => base + i.toNat) ++ offsetIndices (base + m.vertexCount) rest

theorem Valid.index_lt' {m : Mesh} (h : m.Valid) :
    ∀ i ∈ m.indices.getD [], i.toNat < m.vertexCount := by
  cases found : m.indices with
  | none => simp
  | some indices => exact h.index_lt indices found

theorem toNat_add_ofNat {i : UInt32} {n : Nat} (few : i.toNat + n < 2 ^ 32) :
    (i + UInt32.ofNat n).toNat = n + i.toNat := by
  rw [UInt32.toNat_add, UInt32.toNat_ofNat', Nat.mod_eq_of_lt (a := n) (by omega),
    Nat.mod_eq_of_lt few, Nat.add_comm]

theorem rebase_add_ofNat {i : UInt32} {n : Nat} (few : i.toNat + n < 2 ^ 32) :
    rebase (UInt32.ofNat n) (i + UInt32.ofNat n) = i := by
  have sum := toNat_add_ofNat few
  have base : (UInt32.ofNat n).toNat = n := by
    rw [UInt32.toNat_ofNat', Nat.mod_eq_of_lt (by omega)]
  have behind : ¬ i + UInt32.ofNat n < UInt32.ofNat n := by
    rw [UInt32.lt_iff_toNat_lt, sum, base]
    omega
  rw [rebase, if_neg behind, UInt32.add_sub_cancel]

theorem joinedIndicesAfter_append (base : Nat) (parts parts' : List Mesh) :
    joinedIndicesAfter base [] (parts ++ parts')
      = joinedIndicesAfter base [] parts
        ++ joinedIndicesAfter (base + totalVertices parts) [] parts' := by
  induction parts generalizing base with
  | nil => simp [joinedIndicesAfter, totalVertices]
  | cons m rest ih =>
    rw [List.cons_append, joinedIndicesAfter_cons, joinedIndicesAfter_cons, ih, totalVertices_cons,
      List.append_assoc, Nat.add_assoc]

theorem length_joinedIndicesAfter (base : Nat) (parts : List Mesh) :
    (joinedIndicesAfter base [] parts).length = totalIndices parts := by
  induction parts generalizing base with
  | nil => simp [joinedIndicesAfter, totalIndices]
  | cons m rest ih =>
    rw [joinedIndicesAfter_cons, List.length_append, ih, shiftedIndices, List.length_map]
    simp [totalIndices]

theorem offsetIndices_lt {base : Nat} {parts : List Mesh}
    (inRange : ∀ m ∈ parts, ∀ i ∈ m.indices.getD [], i.toNat < m.vertexCount) :
    ∀ j ∈ offsetIndices base parts, j < base + totalVertices parts := by
  induction parts generalizing base with
  | nil => exact fun _ mem => (List.not_mem_nil mem).elim
  | cons m rest ih =>
    intro j hj
    rw [totalVertices_cons]
    rcases List.mem_append.1 hj with own | later
    · obtain ⟨i, hi, rfl⟩ := List.mem_map.1 own
      have := inRange m (by simp) i hi
      omega
    · have := @ih (base + m.vertexCount) (fun p hp => inRange p (by simp [hp])) j later
      omega

theorem map_toNat_joinedIndicesAfter {base : Nat} {parts : List Mesh}
    (fit : ∀ j ∈ offsetIndices base parts, j < 2 ^ 32) :
    (joinedIndicesAfter base [] parts).map UInt32.toNat = offsetIndices base parts := by
  induction parts generalizing base with
  | nil => rfl
  | cons m rest ih =>
    rw [offsetIndices, List.forall_mem_append, List.forall_mem_map] at fit
    have others := ih fit.2
    have own : (m.shiftedIndices base).map UInt32.toNat
        = (m.indices.getD []).map fun i => base + i.toNat := by
      rw [shiftedIndices, List.map_map]
      refine List.map_congr_left fun i hi => ?_
      have := fit.1 i hi
      exact toNat_add_ofNat (by omega)
    rw [joinedIndicesAfter_cons, List.map_append, own, others, offsetIndices]

theorem exists_mergeAll? {parts : List Mesh} (nonempty : parts ≠ []) :
    ∃ whole, mergeAll? parts = some whole := by
  cases parts with
  | nil => exact absurd rfl nonempty
  | cons first rest => exact ⟨_, rfl⟩

/-- A mesh is put together from parts: all they have stands in it part by part. -/
structure Joins (parts : List Mesh) (whole : Mesh) : Prop where
  positions : whole.positions = parts.flatMap (·.positions)
  buffer : ∀ k ∈ Attribute.optional, whole.buffer? k =
    if parts.any fun m => (m.buffer? k).isSome
    then some (parts.flatMap (·.filled k)) else none
  indices : whole.indices = joinedIndices? parts

theorem joins_mergeAll {parts : List Mesh} {whole : Mesh} (valid : ∀ m ∈ parts, m.Valid)
    (merged : mergeAll? parts = some whole) : Joins parts whole := by
  have joined : ∀ k ∈ Attribute.optional, joinedBuffer? parts k =
      if parts.any fun m => (m.buffer? k).isSome
      then some (parts.flatMap (·.filled k)) else none := by
    intro k hk
    have same : parts.flatMap (·.entries k) = parts.flatMap (·.filled k) :=
      List.flatMap_congr fun m hm => (valid m hm).entries_eq hk
    rw [joinedBuffer?, same]
  cases parts with
  | nil => cases merged
  | cons first rest =>
    cases merged
    cases rest with
    | nil =>
      -- A single mesh is not touched, and to fill it up or to move its indices by nothing does not
      -- change it either.
      refine ⟨by simp [merge], fun k hk => ?_, ?_⟩
      · cases found : first.buffer? k <;> simp [merge, filled, found]
      · cases found : first.indices <;>
          simp [merge, joinedIndices?, joinedIndicesAfter, shiftedIndices, found]
    | cons second rest =>
      refine ⟨?_, fun k hk => ?_, rfl⟩
      · have others : (second :: rest).flatMap wholePositions
            = (second :: rest).flatMap (·.positions) :=
          List.flatMap_congr fun m hm => (valid m (by simp [hm])).wholePositions_eq
        change first.positions ++ (second :: rest).flatMap wholePositions = _
        rw [others]
        simp
      · rw [← joined k hk]
        cases k with
        | position => exact absurd hk (by decide)
        | normal | uv | color | tangent => rfl

/-- What is cut out is a part as it was before it was joined with others: with fills for what it
lacks and another part has, and nothing of what no part has. -/
structure Recovers (parts : List Mesh) (part cut : Mesh) : Prop where
  positions : cut.positions = part.positions
  own : ∀ k ∈ Attribute.optional, ∀ xs, part.buffer? k = some xs → cut.buffer? k = some xs
  filled : ∀ k ∈ Attribute.optional, part.buffer? k = none →
    (∃ other ∈ parts, (other.buffer? k).isSome) →
      cut.buffer? k = some (List.replicate (part.vertexCount * k.stride) k.fill)
  absent : ∀ k ∈ Attribute.optional, (∀ other ∈ parts, other.buffer? k = none) →
    cut.buffer? k = none
  indices : ∀ xs, part.indices = some xs → cut.indices = some xs
  noIndices : part.indices = none → (∃ other ∈ parts, other.indices.isSome) →
    cut.indices = some []
  absentIndices : (∀ other ∈ parts, other.indices = none) → cut.indices = none

section cutting
variable {before after : List Mesh} {part whole : Mesh}

theorem Joins.cut_buffer (h : Joins (before ++ part :: after) whole)
    (valid : ∀ m ∈ before ++ part :: after, m.Valid) {k : Attribute} (hk : k ∈ Attribute.optional) :
    (whole.extract (vertexSpan before part) (indexSpan before part)).buffer? k =
      if (before ++ part :: after).any fun m => (m.buffer? k).isSome
      then some (part.filled k) else none := by
  have cut : (whole.extract (vertexSpan before part) (indexSpan before part)).buffer? k =
      (whole.buffer? k).bind (slice? ((vertexSpan before part).start * k.stride)
        ((vertexSpan before part).stop * k.stride)) := by
    cases k with
    | position => exact absurd hk (by decide)
    | normal | uv | color | tangent => rfl
  rw [cut, h.buffer k hk]
  split
  · exact slice?_flatMap_vertices fun m hm => (valid m hm).length_filled hk
  · rfl

theorem Joins.cut_positions (h : Joins (before ++ part :: after) whole)
    (valid : ∀ m ∈ before ++ part :: after, m.Valid) :
    (whole.extract (vertexSpan before part) (indexSpan before part)).positions
      = part.positions := by
  have found := slice?_flatMap_vertices fun m hm => (valid m hm).length_positions
  rw [← h.positions] at found
  change (slice? ((vertexSpan before part).start * 3) ((vertexSpan before part).stop * 3)
    whole.positions).getD [] = _
  rw [found]
  rfl

theorem Joins.cut_indices (h : Joins (before ++ part :: after) whole)
    (valid : ∀ m ∈ before ++ part :: after, m.Valid)
    (few : totalVertices (before ++ part :: after) < 2 ^ 32) :
    (whole.extract (vertexSpan before part) (indexSpan before part)).indices =
      if (before ++ part :: after).any fun m => m.indices.isSome
      then some (part.indices.getD []) else none := by
  rw [totalVertices_append, totalVertices_cons] at few
  change (whole.indices.bind fun all => (slice? (indexSpan before part).start
    (indexSpan before part).stop all).map
      (·.map (rebase (UInt32.ofNat (totalVertices before))))) = _
  rw [h.indices, joinedIndices?]
  split
  · have first := length_joinedIndicesAfter 0 before
    have length : (part.shiftedIndices (totalVertices before)).length
        = (part.indices.getD []).length := by simp [shiftedIndices]
    have back : (part.shiftedIndices (totalVertices before)).map
        (rebase (UInt32.ofNat (totalVertices before))) = part.indices.getD [] := by
      rw [shiftedIndices, List.map_map]
      refine (List.map_congr_left fun i hi => ?_).trans (List.map_id _)
      have := (valid part (by simp)).index_lt' i hi
      exact rebase_add_ofNat (by omega)
    rw [joinedIndicesAfter_append, joinedIndicesAfter_cons, Nat.zero_add, Option.bind_some,
      slice?_append _ (part.shiftedIndices (totalVertices before)) _ (by simp [indexSpan, first])
        (by simp [indexSpan, first, length]), Option.map_some, back]
  · rfl

theorem Joins.recovers (h : Joins (before ++ part :: after) whole)
    (valid : ∀ m ∈ before ++ part :: after, m.Valid)
    (few : totalVertices (before ++ part :: after) < 2 ^ 32) :
    Recovers (before ++ part :: after) part
      (whole.extract (vertexSpan before part) (indexSpan before part)) := by
  have itself : part ∈ before ++ part :: after := by simp
  have cut := fun k hk => h.cut_buffer valid (k := k) hk
  have indices := h.cut_indices valid few
  constructor
  case positions => exact h.cut_positions valid
  case own =>
    intro k hk xs found
    rw [cut k hk, if_pos (List.any_eq_true.2 ⟨part, itself, by simp [found]⟩)]
    simp [Mesh.filled, found]
  case filled =>
    rintro k hk missing ⟨other, mem, has⟩
    rw [cut k hk, if_pos (List.any_eq_true.2 ⟨other, mem, has⟩)]
    simp [Mesh.filled, missing]
  case absent =>
    intro k hk missing
    rw [cut k hk, if_neg]
    rw [List.any_eq_true]
    rintro ⟨other, mem, has⟩
    simp [missing other mem] at has
  case indices =>
    intro xs found
    rw [indices, if_pos (List.any_eq_true.2 ⟨part, itself, by simp [found]⟩), found]
    rfl
  case noIndices =>
    rintro missing ⟨other, mem, has⟩
    rw [indices, if_pos (List.any_eq_true.2 ⟨other, mem, has⟩), missing]
    rfl
  case absentIndices =>
    intro missing
    rw [indices, if_neg]
    rw [List.any_eq_true]
    rintro ⟨other, mem, has⟩
    simp [missing other mem] at has

end cutting

/-- Valid meshes, however they differ in what they have, make a valid mesh when they are joined, and
each of them comes out of it again when the span of vertices and the span of indices are cut out
that it stands in. -/
theorem extract_mergeAll {parts : List Mesh} (nonempty : parts ≠ [])
    (valid : ∀ m ∈ parts, m.validate = .ok ()) (few : totalVertices parts < 2 ^ 32) :
    ∃ whole, mergeAll? parts = some whole ∧ whole.validate = .ok () ∧
      ∀ before part after, parts = before ++ part :: after →
        Recovers parts part (whole.extract (vertexSpan before part) (indexSpan before part)) := by
  have valid : ∀ m ∈ parts, m.Valid := fun m hm => (m.validate_eq_ok_iff).1 (valid m hm)
  obtain ⟨whole, merged⟩ := exists_mergeAll? nonempty
  refine ⟨whole, merged, (whole.validate_eq_ok_iff).2 (Valid.mergeAll valid merged), ?_⟩
  rintro before part after rfl
  exact (joins_mergeAll valid merged).recovers valid few

def upright : Mesh where
  positions := [0, 0, 0, 1, 0, 0, 0, 1, 0]
  normals := some [0, 0, 1, 0, 0, 1, 0, 0, 1]
  indices := some [0, 1, 2]

def spot : Mesh where
  positions := [5, 5, 5]
  colors := some [1, 0, 0, 0.5]

/-- Between a vertex with a color, nothing at all, and a vertex with a color again, a triangle comes
back with its own indices and opaque white. -/
theorem extract_upright :
    ∃ whole, mergeAll? [spot, .empty, upright, spot] = some whole ∧ whole.validate = .ok () ∧
      Recovers [spot, .empty, upright, spot] upright (whole.extract ⟨1, 4⟩ ⟨0, 3⟩) ∧
      (whole.extract ⟨1, 4⟩ ⟨0, 3⟩).indices = some [0, 1, 2] ∧
      (whole.extract ⟨1, 4⟩ ⟨0, 3⟩).colors = some (List.replicate 12 1) := by
  have valid : ∀ m ∈ [spot, .empty, upright, spot], m.validate = .ok () := by
    intro m hm
    simp only [List.mem_cons, List.not_mem_nil, or_false] at hm
    rcases hm with rfl | rfl | rfl | rfl <;> rfl
  obtain ⟨whole, merged, valid, recovers⟩ := extract_mergeAll (by simp) valid (by decide)
  have back := recovers [spot, .empty] upright [spot] rfl
  refine ⟨whole, merged, valid, back, back.indices _ rfl, ?_⟩
  exact back.filled .color (by decide) rfl ⟨spot, by simp, rfl⟩

end Mesh
end MeshFlow
