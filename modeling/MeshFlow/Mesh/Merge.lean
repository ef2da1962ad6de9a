import MeshFlow.Mesh.Basic

set_option autoImplicit false

/-!
# Joining and cutting meshes

Joined meshes keep every attribute that any of them has; vertices that lacked it get its fill.
Indices of each mesh move up by the vertices before it; where one does not fit into 32 bits after
that, nobody may go on with the joined mesh (`overflows`). Joining many meshes at once is the same as
putting them behind the first one by one (`merge_eq_foldl`). `extract` cuts a span of vertices and
a span of indices back out.
-/
namespace MeshFlow.Mesh

/-- The entries of an attribute, exactly one for every vertex. -/
def entries (m : Mesh) (k : Attribute) : List Float32 :=
  fitted (m.vertexCount * k.stride) k.fill ((m.buffer? k).getD [])

/-- The buffer of an attribute after joining, if any of the meshes has it. -/
def joinedBuffer? (parts : List Mesh) (k : Attribute) : Option (List Float32) :=
  if parts.any fun m => (m.buffer? k).isSome then some (parts.flatMap (·.entries k)) else none

def wholePositions (m : Mesh) : List Float32 := m.positions.take (m.vertexCount * 3)

def shiftedIndices (m : Mesh) (base : Nat) : List UInt32 :=
  let offset := UInt32.ofNat base
  (m.indices.getD []).map (· + offset)

/-- Some index of a mesh that stands behind `base` vertices does not fit. -/
def overshoots (m : Mesh) (base : Nat) : Bool :=
  (m.indices.getD []).any fun i => UInt32.size ≤ i.toNat + (UInt32.ofNat base).toNat

def overshootsAfter : (base : Nat) → List Mesh → Bool
  | _, [] => false
  | base, m :: rest => m.overshoots base || overshootsAfter (base + m.vertexCount) rest

def overflows (parts : List Mesh) : Bool := overshootsAfter 0 parts

def totalVertices : List Mesh → Nat
  | [] => 0
  | m :: rest => m.vertexCount + totalVertices rest

/-- The indices of meshes that stand behind `base` vertices, behind those in `done`, which has the
last mesh first. -/
def joinedIndicesAfter : (base : Nat) → (done : List (List UInt32)) → List Mesh → List UInt32
  | _, done, [] => done.reverse.flatten
  | base, done, m :: rest =>
    joinedIndicesAfter (base + m.vertexCount) (m.shiftedIndices base :: done) rest

def joinedIndices? (parts : List Mesh) : Option (List UInt32) :=
  if parts.any fun m => m.indices.isSome then some (joinedIndicesAfter 0 [] parts) else none

/-- The meshes of a list put behind `m`, in order; `m` alone stays as it is. -/
def merge (m : Mesh) (others : List Mesh) : Mesh :=
  if others.isEmpty then m
  else
    { positions := m.positions ++ others.flatMap wholePositions
      normals := joinedBuffer? (m :: others) .normal
      uvs := joinedBuffer? (m :: others) .uv
      colors := joinedBuffer? (m :: others) .color
      tangents := joinedBuffer? (m :: others) .tangent
      indices := joinedIndices? (m :: others)
      id := m.id }

def append (a b : Mesh) : Mesh := a.merge [b]

instance : Append Mesh := ⟨append⟩

def mergeAll? : List Mesh → Option Mesh
  | [] => none
  | first :: rest => some (first.merge rest)

/-! ## One after the other -/

theorem length_entries (m : Mesh) (k : Attribute) :
    (m.entries k).length = m.vertexCount * k.stride :=
  length_fitted ..

theorem length_wholePositions (m : Mesh) : m.wholePositions.length = m.vertexCount * 3 := by
  simp only [wholePositions, List.length_take, vertexCount]
  omega

theorem wholePositions_of_whole {m : Mesh} (whole : m.positions.length % 3 = 0) :
    m.wholePositions = m.positions := by
  refine List.take_of_length_le ?_
  rw [vertexCount]
  omega

theorem positions_append (a b : Mesh) : (a ++ b).positions = a.positions ++ b.wholePositions := by
  show a.positions ++ [b].flatMap wholePositions = _
  simp

theorem vertexCount_append (a b : Mesh) :
    (a ++ b).vertexCount = a.vertexCount + b.vertexCount := by
  have b_length := length_wholePositions b
  simp only [vertexCount, positions_append, List.length_append] at b_length ⊢
  omega

theorem buffer?_append {k : Attribute} (h : k ≠ .position) (a b : Mesh) :
    (a ++ b).buffer? k = joinedBuffer? [a, b] k := by
  cases k
  · exact absurd rfl h
  all_goals rfl

theorem entries_append {k : Attribute} (h : k ≠ .position) (a b : Mesh) :
    (a ++ b).entries k = a.entries k ++ b.entries k := by
  rw [entries, buffer?_append h, vertexCount_append]
  by_cases some : (a.buffer? k).isSome ∨ (b.buffer? k).isSome
  · have : joinedBuffer? [a, b] k = Option.some (a.entries k ++ b.entries k) := by
      simp [joinedBuffer?, some]
    rw [this, Option.getD_some, fitted_of_length]
    simp [length_entries, Nat.add_mul]
  · have : joinedBuffer? [a, b] k = none := by
      simp [joinedBuffer?, some]
    simp only [not_or, Bool.not_eq_true, Option.isSome_eq_false_iff, Option.isNone_iff_eq_none]
      at some
    rw [this]
    simp [entries, some.1, some.2, fitted_nil, Nat.add_mul, List.replicate_append_replicate]

theorem isSome_buffer?_append {k : Attribute} (h : k ≠ .position) (a b : Mesh) :
    ((a ++ b).buffer? k).isSome = ((a.buffer? k).isSome || (b.buffer? k).isSome) := by
  rw [buffer?_append h, joinedBuffer?]
  split <;> simp_all

theorem joinedBuffer?_append {k : Attribute} (h : k ≠ .position) (a b : Mesh) (rest : List Mesh) :
    joinedBuffer? ((a ++ b) :: rest) k = joinedBuffer? (a :: b :: rest) k := by
  simp [joinedBuffer?, isSome_buffer?_append h, entries_append h, Bool.or_assoc]

theorem joinedIndicesAfter_eq (base : Nat) (done : List (List UInt32)) (parts : List Mesh) :
    joinedIndicesAfter base done parts
      = done.reverse.flatten ++ joinedIndicesAfter base [] parts := by
  induction parts generalizing base done with
  | nil => simp [joinedIndicesAfter]
  | cons m rest ih =>
    rw [joinedIndicesAfter, ih, joinedIndicesAfter, ih _ [_]]
    simp

theorem joinedIndicesAfter_cons (base : Nat) (m : Mesh) (rest : List Mesh) :
    joinedIndicesAfter base [] (m :: rest)
      = m.shiftedIndices base ++ joinedIndicesAfter (base + m.vertexCount) [] rest := by
  rw [joinedIndicesAfter, joinedIndicesAfter_eq]
  simp

theorem shiftedIndices_zero (m : Mesh) : m.shiftedIndices 0 = m.indices.getD [] := by
  simp [shiftedIndices]

theorem getD_joinedIndices? (a b : Mesh) :
    (joinedIndices? [a, b]).getD [] = a.shiftedIndices 0 ++ b.shiftedIndices a.vertexCount := by
  simp only [joinedIndices?]
  split
  · simp [joinedIndicesAfter]
  · simp_all [shiftedIndices]

theorem indices_append (a b : Mesh) : (a ++ b).indices = joinedIndices? [a, b] := rfl

theorem isSome_indices_append (a b : Mesh) :
    (a ++ b).indices.isSome = (a.indices.isSome || b.indices.isSome) := by
  rw [indices_append, joinedIndices?]
  split <;> simp_all

/-- To move up the indices of joined meshes is to move up those of each. -/
theorem shiftedIndices_append (a b : Mesh) (base : Nat) :
    (a ++ b).shiftedIndices base
      = a.shiftedIndices base ++ b.shiftedIndices (base + a.vertexCount) := by
  rw [shiftedIndices, indices_append, getD_joinedIndices?, shiftedIndices_zero]
  simp only [shiftedIndices, List.map_append, List.map_map, Function.comp_def, UInt32.ofNat_add,
    UInt32.add_assoc, UInt32.add_comm (UInt32.ofNat base)]

theorem joinedIndices?_append (a b : Mesh) (rest : List Mesh) :
    joinedIndices? ((a ++ b) :: rest) = joinedIndices? (a :: b :: rest) := by
  simp [joinedIndices?, isSome_indices_append, joinedIndicesAfter_cons, shiftedIndices_append,
    vertexCount_append, Bool.or_assoc]

theorem merge_cons (m b : Mesh) (rest : List Mesh) : m.merge (b :: rest) = (m ++ b).merge rest := by
  cases rest with
  | nil => rfl
  | cons c rest =>
    have id : (m ++ b).id = m.id := rfl
    simp [merge, positions_append, id, joinedBuffer?_append, joinedIndices?_append]

theorem merge_eq_foldl (m : Mesh) (others : List Mesh) :
    m.merge others = others.foldl append m := by
  induction others generalizing m with
  | nil => rfl
  | cons b rest ih => rw [merge_cons, ih]; rfl

/-! ## Cutting -/

structure Span where
  start : Nat
  stop : Nat

/-- `i` counted from `base`; what lies before it is zero. -/
def rebase (base i : UInt32) : UInt32 := if i < base then 0 else i - base

/-- The buffers of a span of vertices and the indices of a span, counted from the first of these
vertices. A buffer that does not reach so far is left out. -/
def extract (m : Mesh) (vertices indices : Span) : Mesh :=
  let cut (k : Attribute) : Option (List Float32) :=
    (m.buffer? k).bind (slice? (vertices.start * k.stride) (vertices.stop * k.stride))
  { positions := (cut .position).getD []
    normals := cut .normal
    uvs := cut .uv
    colors := cut .color
    tangents := cut .tangent
    indices := m.indices.bind fun all =>
      (slice? indices.start indices.stop all).map
        (·.map (rebase (UInt32.ofNat vertices.start)))
    id := m.id }

end MeshFlow.Mesh
