import MeshFlow.Proofs.Naming
import MeshFlow.Proofs.Nesting
import MeshFlow.Proofs.Painting

set_option autoImplicit false

/-!
# Meshes joined as they come

A mesh may come with buffers that do not fit its vertices and with indices of vertices that it does
not have. Joining brings every optional buffer to the length of whole vertices and cuts the
positions of what it appends, but not those of the mesh it appends to; and it moves indices up
whatever they are, so that those of a vertex which is missing may come to lie on one of a later
mesh.
-/
namespace MeshFlow

theorem slice?_append_left {α : Type} {start length : Nat} {xs : List α} (behind : List α)
    (room : start + length ≤ xs.length) :
    slice? start (start + length) (xs ++ behind) = slice? start (start + length) xs := by
  have inside : start + length ≤ (xs ++ behind).length := by
    rw [List.length_append]
    omega
  rw [slice?, slice?, if_pos ⟨Nat.le_add_right .., inside⟩, if_pos ⟨Nat.le_add_right .., room⟩,
    List.drop_append_of_le_length (by omega),
    List.take_append_of_le_length (by rw [List.length_drop]; omega)]

theorem getElem?_fitted {α : Type} (n : Nat) (fill : α) (xs : List α) (i : Nat) :
    (fitted n fill xs)[i]? = if i < n then some (xs[i]?.getD fill) else none := by
  by_cases inside : i < n
  · rw [if_pos inside, fitted]
    by_cases own : i < xs.length
    · rw [List.getElem?_append_left (by rw [List.length_take]; omega),
        List.getElem?_take_of_lt inside, List.getElem?_eq_getElem own, Option.getD_some]
    · have past : xs[i]? = none := List.getElem?_eq_none (by omega)
      rw [List.getElem?_append_right (by rw [List.length_take]; omega), List.length_take, past,
        List.getElem?_replicate_of_lt (by omega), Option.getD_none]
  · rw [if_neg inside]
    exact List.getElem?_eq_none (by rw [length_fitted]; omega)

theorem slice?_fitted {α : Type} {start length n : Nat} (fill : α) (xs : List α)
    (room : start + length ≤ n) :
    slice? start (start + length) (fitted n fill xs)
      = some (fitted length fill (xs.drop start)) := by
  rw [slice?, length_fitted, if_pos ⟨Nat.le_add_right .., room⟩]
  congr 1
  ext1 i
  rw [Nat.add_sub_cancel_left, getElem?_fitted]
  by_cases inside : i < length
  · rw [List.getElem?_take_of_lt inside, List.getElem?_drop, getElem?_fitted, if_pos (by omega),
      if_pos inside, List.getElem?_drop]
  · rw [List.getElem?_take_eq_none (by omega), if_neg inside]

namespace Mesh

/-- What a vertex has of an attribute, with fills for the components that the buffer does not reach
and for all of them where there is no buffer. -/
def componentsOrFill (m : Mesh) (k : Attribute) (vertex : Nat) : List Float32 :=
  fitted k.stride k.fill (((m.buffer? k).getD []).drop (vertex * k.stride))

/-- Each vertex of a mesh that stands in a joined one from `base` on has there what it has of an
attribute in the mesh itself. -/
def Keeps (m : Mesh) (k : Attribute) (base : Nat) (whole : Mesh) : Prop :=
  ∀ v < m.vertexCount, whole.attributeAt? k (base + v) = some (m.componentsOrFill k v)

theorem slice?_entries (m : Mesh) (k : Attribute) {v : Nat} (lt : v < m.vertexCount) :
    slice? (v * k.stride) (v * k.stride + k.stride) (m.entries k)
      = some (m.componentsOrFill k v) :=
  slice?_fitted _ _ (span_le lt k.stride)

theorem slice?_wholePositions (m : Mesh) {v : Nat} (lt : v < m.vertexCount) :
    slice? (v * 3) (v * 3 + 3) m.wholePositions = some (m.componentsOrFill .position v) := by
  have cut : m.wholePositions = m.entries .position := by
    have enough : m.vertexCount * 3 - m.positions.length = 0 := by
      rw [vertexCount]
      omega
    change m.wholePositions = m.positions.take (m.vertexCount * 3)
      ++ List.replicate (m.vertexCount * 3 - m.positions.length) 0
    rw [enough, List.replicate_zero, List.append_nil, wholePositions]
  rw [cut]
  exact m.slice?_entries .position lt

variable {a b : Mesh} {k : Attribute}

theorem buffer?_append_of_has (hk : k ∈ Attribute.optional)
    (has : (a.buffer? k).isSome ∨ (b.buffer? k).isSome) :
    (a ++ b).buffer? k = some (a.entries k ++ b.entries k) := by
  have optional : k ≠ .position := by
    rintro rfl
    exact absurd hk (by decide)
  simp [buffer?_append optional, joinedBuffer?, has]

theorem keeps_first (hk : k ∈ Attribute.optional)
    (has : (a.buffer? k).isSome ∨ (b.buffer? k).isSome) : a.Keeps k 0 (a ++ b) := by
  intro v lt
  have room := span_le lt k.stride
  rw [← a.length_entries] at room
  rw [attributeAt?, buffer?_append_of_has hk has, Option.bind_some, Nat.zero_add,
    slice?_append_left _ room, a.slice?_entries k lt]

theorem keeps_second (hk : k ∈ Attribute.optional)
    (has : (a.buffer? k).isSome ∨ (b.buffer? k).isSome) : b.Keeps k a.vertexCount (a ++ b) := by
  intro v lt
  rw [attributeAt?, buffer?_append_of_has hk has, Option.bind_some, Nat.add_mul, Nat.add_assoc,
    slice?_append_right (a.length_entries k), b.slice?_entries k lt]

theorem positions_parted (m : Mesh) : m.wholePositions ++ afterTriples m.positions = m.positions :=
  List.take_append_drop ..

theorem attributeAt?_position_append (a b : Mesh) (v : Nat) :
    (a ++ b).attributeAt? .position v
      = slice? (v * 3) (v * 3 + 3)
          (a.wholePositions ++ (afterTriples a.positions ++ b.wholePositions)) := by
  rw [← List.append_assoc, positions_parted, ← positions_append]
  rfl

theorem keeps_first_positions (a b : Mesh) : a.Keeps .position 0 (a ++ b) := by
  intro v lt
  have room := span_le lt 3
  rw [← a.length_wholePositions] at room
  rw [Nat.zero_add, attributeAt?_position_append, slice?_append_left _ room,
    a.slice?_wholePositions lt]

/-- The positions of an appended mesh are read from behind the floats that those of the first one
leave over. -/
theorem attributeAt?_position_behind (a b : Mesh) (v : Nat) :
    (a ++ b).attributeAt? .position (a.vertexCount + v)
      = slice? (v * 3) (v * 3 + 3) (afterTriples a.positions ++ b.wholePositions) := by
  rw [attributeAt?_position_append, Nat.add_mul, Nat.add_assoc,
    slice?_append_right a.length_wholePositions]

theorem keeps_second_positions (whole : a.positions.length % 3 = 0) (b : Mesh) :
    b.Keeps .position a.vertexCount (a ++ b) := by
  intro v lt
  have none : afterTriples a.positions = [] := by
    rw [afterTriples, List.drop_eq_nil_iff]
    omega
  rw [attributeAt?_position_behind, none, List.nil_append, b.slice?_wholePositions lt]

/-- A single vertex, no shift of whose position leaves it as it is. -/
def askew : Mesh := ofPositions [0, 1, 1]

theorem whole_of_keeps (keeps : askew.Keeps .position a.vertexCount (a ++ askew)) :
    a.positions.length % 3 = 0 := by
  have read := keeps 0 (by decide)
  have length : (afterTriples a.positions).length = a.positions.length % 3 := by
    rw [afterTriples, List.length_drop]
    omega
  rw [attributeAt?_position_behind] at read
  -- Fewer than three floats are left over, and with one or two in front the vertex reads otherwise.
  rcases left : afterTriples a.positions with _ | ⟨x, _ | ⟨y, _ | ⟨z, rest⟩⟩⟩
  · rw [← length, left, List.length_nil]
  · rw [left] at read
    have shifted : [x, 0, 1] = ([0, 1, 1] : List Float32) := Option.some.inj read
    have same : (0 : Float32) = 1 := (List.cons.inj (List.cons.inj shifted).2).1
    exact absurd same (by decide +kernel)
  · rw [left] at read
    have shifted : [x, y, 0] = ([0, 1, 1] : List Float32) := Option.some.inj read
    have same : (0 : Float32) = 1 := (List.cons.inj (List.cons.inj (List.cons.inj shifted).2).2).1
    exact absurd same (by decide +kernel)
  · rw [left] at length
    simp only [List.length_cons] at length
    omega

/-- Whatever buffers two meshes come with, in the joined mesh the vertices of both have what they
had of each optional attribute, and those of the first one their positions; but those of the second
one have theirs behind the floats that the positions of the first one leave over. So the positions
are kept, whatever is appended, exactly if there are none left over. -/
theorem keeps_append (a : Mesh) :
    (∀ b : Mesh, (a ++ b).vertexCount = a.vertexCount + b.vertexCount ∧
      (∀ k ∈ Attribute.optional, (a.buffer? k).isSome ∨ (b.buffer? k).isSome →
        a.Keeps k 0 (a ++ b) ∧ b.Keeps k a.vertexCount (a ++ b)) ∧
      a.Keeps .position 0 (a ++ b) ∧
      ∀ v, (a ++ b).attributeAt? .position (a.vertexCount + v)
        = slice? (v * 3) (v * 3 + 3) (afterTriples a.positions ++ b.wholePositions)) ∧
    ((∀ b : Mesh, b.Keeps .position a.vertexCount (a ++ b)) ↔ a.positions.length % 3 = 0) := by
  refine ⟨fun b => ⟨vertexCount_append a b, fun k hk has => ?_, ?_, ?_⟩, ?_⟩
  · exact ⟨keeps_first hk has, keeps_second hk has⟩
  · exact keeps_first_positions a b
  · exact attributeAt?_position_behind a b
  · exact ⟨fun keeps => whole_of_keeps (keeps askew), keeps_second_positions⟩

def torn : Mesh := ofPositions [0, 0, 0, 9]

theorem shifted_behind_torn :
    (torn ++ spot).attributeAt? .position 1 = some [9, 5, 5] ∧
      ¬ ∀ b : Mesh, b.Keeps .position torn.vertexCount (torn ++ b) := by
  obtain ⟨kept, whole⟩ := keeps_append torn
  obtain ⟨-, -, -, behind⟩ := kept spot
  exact ⟨(behind 0).trans rfl, fun keeps => absurd (whole.1 keeps) (by decide)⟩

theorem mem_offsetIndices_iff {base j : Nat} {parts : List Mesh} :
    j ∈ offsetIndices base parts ↔ ∃ before part after, parts = before ++ part :: after ∧
      ∃ i ∈ part.indices.getD [], j = base + totalVertices before + i.toNat := by
  induction parts generalizing base with
  | nil => simp [offsetIndices]
  | cons m rest ih =>
    rw [offsetIndices, List.mem_append, List.mem_map, ih]
    constructor
    · rintro (⟨i, hi, rfl⟩ | ⟨before, part, after, rfl, i, hi, rfl⟩)
      · exact ⟨[], m, rest, rfl, i, hi, by simp [totalVertices]⟩
      · refine ⟨m :: before, part, after, rfl, i, hi, ?_⟩
        rw [totalVertices_cons]
        omega
    · rintro ⟨_ | ⟨m', before⟩, part, after, same, i, hi, rfl⟩
      · cases same
        exact .inl ⟨i, hi, by simp [totalVertices]⟩
      · cases same
        refine .inr ⟨before, part, after, rfl, i, hi, ?_⟩
        rw [totalVertices_cons]
        omega

variable {parts : List Mesh} {whole : Mesh}

theorem attribute_length_mergeAll? (two : 2 ≤ parts.length) (merged : mergeAll? parts = some whole)
    (hk : k ∈ Attribute.optional) {xs : List Float32} (found : whole.buffer? k = some xs) :
    xs.length = whole.vertexCount * k.stride := by
  rw [vertexCount_mergeAll merged]
  have joined : whole.buffer? k = joinedBuffer? parts k := by
    match parts, two with
    | first :: second :: rest, _ =>
      cases merged
      cases k with
      | position => exact absurd hk (by decide)
      | normal | uv | color | tangent => rfl
  rw [joined, joinedBuffer?] at found
  split at found
  · cases found
    exact length_flatMap_vertices parts fun m _ => m.length_entries k
  · cases found

theorem indices_mergeAll? (two : 2 ≤ parts.length) (merged : mergeAll? parts = some whole) :
    whole.indices = joinedIndices? parts := by
  match parts, two with
  | first :: second :: rest, _ =>
    cases merged
    rfl

theorem valid_iff (m : Mesh) : m.Valid ↔ m.positions.length % 3 = 0 ∧
    (∀ k ∈ Attribute.optional, ∀ xs, m.buffer? k = some xs →
      xs.length = m.vertexCount * k.stride) ∧
    (m.indices.getD []).length % 3 = 0 ∧
    ∀ j ∈ (m.indices.getD []).map UInt32.toNat, j < m.vertexCount := by
  constructor
  · intro h
    refine ⟨h.whole_vertices, h.attribute_length, ?_, List.forall_mem_map.2 h.index_lt'⟩
    cases found : m.indices with
    | none => rfl
    | some indices => exact h.whole_triangles indices found
  · rintro ⟨whole, lengths, triangles, inRange⟩
    refine ⟨whole, lengths, fun indices found => ?_, fun indices found i hi => ?_⟩
    · rwa [found] at triangles
    · rw [found] at inRange
      exact inRange _ (List.mem_map_of_mem hi)

theorem map_toNat_indices_mergeAll? (two : 2 ≤ parts.length)
    (merged : mergeAll? parts = some whole) (fit : ∀ j ∈ offsetIndices 0 parts, j < 2 ^ 32) :
    (whole.indices.getD []).map UInt32.toNat = offsetIndices 0 parts := by
  rw [indices_mergeAll? two merged, getD_joinedIndices?_eq, map_toNat_joinedIndicesAfter fit]

/-- A joined mesh has all its attributes in order, so that only positions left over from the first
part and the indices can make it invalid. -/
theorem validate_mergeAll?_iff (two : 2 ≤ parts.length) (merged : mergeAll? parts = some whole)
    (fit : ∀ j ∈ offsetIndices 0 parts, j < 2 ^ 32) : whole.validate = .ok () ↔
      (∀ first, parts.head? = some first → first.positions.length % 3 = 0) ∧
      totalIndices parts % 3 = 0 ∧ ∀ j ∈ offsetIndices 0 parts, j < totalVertices parts := by
  have positions : whole.positions.length % 3 = 0 ↔
      ∀ first, parts.head? = some first → first.positions.length % 3 = 0 := by
    cases parts with
    | nil => cases merged
    | cons first rest =>
      cases merged
      simp [length_positions_merge]
  have lengths : ∀ k ∈ Attribute.optional, ∀ xs, whole.buffer? k = some xs →
      xs.length = whole.vertexCount * k.stride :=
    fun k hk xs found => attribute_length_mergeAll? two merged hk found
  have count : (whole.indices.getD []).length = totalIndices parts := by
    rw [indices_mergeAll? two merged, getD_joinedIndices?_eq, length_joinedIndicesAfter]
  rw [← vertexCount_mergeAll merged, whole.validate_eq_ok_iff, whole.valid_iff, positions, count,
    map_toNat_indices_mergeAll? two merged fit]
  exact and_congr_right fun _ => and_iff_right lengths

end Mesh

namespace Graph

theorem finish_reports_invalid (id : BlockId) (node : Node) (v : Value) (s : Session) :
    IfEnds (finish id node v) s fun geometry s' => ∀ m fault, geometry = some m →
      m.validate = .error fault → .invalidGeometry id fault.message ∈ s'.diagnostics := by
  cases v with
  | null =>
    refine (ifEnds_pure ..).2 ?_
    rintro _ _ ⟨⟩
  | geometry m =>
    rw [finish]
    cases validation : m.validate with
    | ok =>
      refine (ifEnds_pure ..).2 ?_
      rintro _ fault ⟨⟩ invalid
      cases validation.symm.trans invalid
    | error fault =>
      simp only [ifEnds_bind, ifEnds_modify, ifEnds_pure]
      rintro _ fault' ⟨⟩ invalid
      cases validation.symm.trans invalid
      exact (Session.mem_record ..).2 (.inr rfl)
  | _ =>
    simp only [finish, ifEnds_bind, ifEnds_modify, ifEnds_pure]
    rintro _ _ ⟨⟩

theorem reports_invalid {g : Graph} {config : BuildConfig} {outcome : Outcome} {m : Mesh}
    {fault : MeshError} (built : g.build config = .ok outcome) (made : outcome.geometry = some m)
    (invalid : m.validate = .error fault) :
    ∃ id, g.output = some id ∧ .invalidGeometry id fault.message ∈ outcome.diagnostics := by
  rw [build] at built
  split at built
  · cases built
  · rename_i id output
    refine ⟨id, output, ?_⟩
    obtain ⟨node, -, pass⟩ := (bind_eq_ok_iff ..).1 built
    dsimp only at pass
    split at pass
    · rename_i geometry s run
      cases pass
      have ifEnds : IfEnds (do finish id node (← g.resultValue id node)) (.start config) _ :=
        (ifEnds_bind ..).2 fun v s _ => finish_reports_invalid id node v s
      exact ifEnds _ _ run _ _ made invalid
    · cases pass

end Graph

namespace Mesh

variable {parts : List Mesh} {whole : Mesh}

/-- What the validation of a joined mesh says of its parts. -/
structure ShowsFaults (parts : List Mesh) (whole : Mesh) : Prop where
  indices : (whole.indices.getD []).map UInt32.toNat = offsetIndices 0 parts
  valid_iff : whole.validate = .ok () ↔
    (∀ first, parts.head? = some first → first.positions.length % 3 = 0) ∧
    totalIndices parts % 3 = 0 ∧ ∀ j ∈ offsetIndices 0 parts, j < totalVertices parts
  /-- An index stands out if there are not as many vertices, counted from its own mesh on. -/
  strays : ∀ before part after, parts = before ++ part :: after → ∀ i ∈ part.indices.getD [],
    part.vertexCount + totalVertices after ≤ i.toNat →
      ∃ fault, whole.validate = .error fault ∧
        ∀ (g : Graph) config outcome, g.build config = .ok outcome →
          outcome.geometry = some whole →
          ∃ id, g.output = some id ∧ .invalidGeometry id fault.message ∈ outcome.diagnostics

theorem ShowsFaults.of_fit (two : 2 ≤ parts.length) (merged : mergeAll? parts = some whole)
    (fit : ∀ j ∈ offsetIndices 0 parts, j < 2 ^ 32) : ShowsFaults parts whole := by
  have valid := validate_mergeAll?_iff two merged fit
  refine ⟨map_toNat_indices_mergeAll? two merged fit, valid, ?_⟩
  rintro before part after rfl i hi beyond
  have moved : totalVertices before + i.toNat ∈ offsetIndices 0 (before ++ part :: after) :=
    mem_offsetIndices_iff.2 ⟨before, part, after, rfl, i, hi, by omega⟩
  cases validation : whole.validate with
  | error fault =>
    exact ⟨fault, rfl, fun g config outcome built made => g.reports_invalid built made validation⟩
  | ok =>
    have inRange := (valid.1 validation).2.2 _ moved
    rw [totalVertices_append, totalVertices_cons] at inRange
    omega

/-- Indices that are in range for their own meshes fit when they are moved up, unless there are too
many vertices for that; and if all fit, a mesh joined from two or more is found to be valid exactly
if the first one has whole vertices, all have whole triangles together, and no index is beyond the
last vertex of all. Then each triangle is between vertices of its own mesh and of later ones, and
one that is not is reported wherever the joined mesh is the geometry of a build. -/
theorem shows_faults (two : 2 ≤ parts.length) (merged : mergeAll? parts = some whole) :
    ((∀ m ∈ parts, ∀ i ∈ m.indices.getD [], i.toNat < m.vertexCount) →
      totalVertices parts ≤ 2 ^ 32 → ∀ j ∈ offsetIndices 0 parts, j < 2 ^ 32) ∧
    ((∀ j ∈ offsetIndices 0 parts, j < 2 ^ 32) → ShowsFaults parts whole) := by
  refine ⟨fun inRange few j hj => ?_, ShowsFaults.of_fit two merged⟩
  have := offsetIndices_lt inRange j hj
  omega

def stray : Mesh where
  positions := [0, 0, 0]
  indices := some [0, 0, 1]

def far : Mesh where
  positions := [0, 0, 0]
  indices := some [4294967295, 0, 0]

/-- In front of another vertex, the index of one that does not exist goes unnoticed; and behind one,
the last index no longer fits. -/
theorem hides_stray :
    (∃ i ∈ stray.indices.getD [], stray.vertexCount ≤ i.toNat) ∧
      (∃ whole, mergeAll? [stray, spot] = some whole ∧ whole.validate = .ok ()) ∧
      ∃ j ∈ offsetIndices 0 [spot, far], 2 ^ 32 ≤ j := by
  exact ⟨⟨1, by decide, by decide⟩, ⟨_, rfl, by decide +kernel⟩, ⟨2 ^ 32, by decide, le_rfl⟩⟩

/-- Behind another vertex it is noticed. -/
theorem shows_stray :
    ∃ whole fault, mergeAll? [spot, stray] = some whole ∧ whole.validate = .error fault := by
  obtain ⟨whole, merged⟩ := @exists_mergeAll? [spot, stray] (by simp)
  obtain ⟨-, shows⟩ := shows_faults (by decide) merged
  obtain ⟨fault, invalid, -⟩ :=
    (shows (by decide)).strays [spot] stray [] rfl 1 (by decide) (by decide)
  exact ⟨whole, fault, merged, invalid⟩

end Mesh
end MeshFlow
