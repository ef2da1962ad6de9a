import MeshFlow.Mesh.Normals
import MeshFlow.Proofs.Spreading

set_option autoImplicit false

/-!
# Normals of any mesh

A mesh may come from outside in any state: with floats left over behind the last whole vertex, with
indices left over behind the last triangle, with indices past the last vertex, with normals for more
or fewer vertices than there are. New normals are made of what is whole. Every entry that is read or
written on the way is there, all other buffers stay as they are, and the normal of a vertex is the
sum over the whole triangles at it, which is the zero vector where there is none.
-/
namespace MeshFlow
open Space

theorem Space.Vec3.ofEntry?_eq : (xs : List Float32) → (i : Nat) →
    Vec3.ofEntry? (xs[·]?) i = (triples xs)[i]?.map fun (x, y, z) => ⟨x, y, z⟩
  | x :: y :: z :: rest, 0 => by
    rw [triples_cons]
    rfl
  | x :: y :: z :: rest, i + 1 => by
    rw [triples_cons, List.getElem?_cons_succ, ← ofEntry?_eq rest i]
    rfl
  | [], i => rfl
  | [_], i | [_, _], i => by simp [ ofEntry?, triples, triplesAfter]

theorem triples_flatMap_toList (vs : List Vec3) :
    (triples (vs.flatMap Vec3.toList)).map (fun (x, y, z) => (⟨x, y, z⟩ : Vec3)) = vs := by
  induction vs with
  | nil => rfl
  | cons v rest ih =>
    rw [List.flatMap_cons]
    change (triples (v.x :: v.y :: v.z :: rest.flatMap Vec3.toList)).map _ = _
    rw [triples_cons, List.map_cons, ih]

namespace Mesh

theorem position?_eq (m : Mesh) (v : Nat) : m.position? v = m.points[v]? := by
  rw [position?, Vec3.ofEntry?_eq, points, List.getElem?_map]

/-- Adds to an entry that has to be there. -/
def addAt? (normal : Vec3) (sums : Array Vec3) (vertex : UInt32) : Option (Array Vec3) :=
  if h : vertex.toNat < sums.size then
    some (sums.set vertex.toNat (sums[vertex.toNat] + normal))
  else none

/-- A triangle adds its normal at each corner, if the positions of all three are found. -/
def addFaceNormal? (m : Mesh) (sums : Array Vec3) (face : UInt32 × UInt32 × UInt32) :
    Option (Array Vec3) :=
  match m.position? face.1.toNat, m.position? face.2.1.toNat, m.position? face.2.2.toNat with
  | some a, some b, some c =>
    [face.1, face.2.1, face.2.2].foldlM (addAt? (Triangle.mk a b c).areaNormal) sums
  | _, _, _ => some sums

/-- The normals by checked accesses; nothing where one of them is out of range. -/
def computeNormals? (m : Mesh) : Option Mesh :=
  match m.indices with
  | none => some m
  | some _ => do
    let sums ← m.faces.foldlM m.addFaceNormal? (Array.replicate m.vertexCount Vec3.zero)
    return { m with normals := some (sums.toList.flatMap (·.normalizeOrZero.toList)) }

/-- Adds at several vertices, each taken as often as it is listed. -/
def addAtAll (normal : Vec3) (sums : Array Vec3) (vertices : List UInt32) : Array Vec3 :=
  vertices.foldl (fun sums i => sums.modify i.toNat (· + normal)) sums

theorem size_addAtAll (normal : Vec3) (sums : Array Vec3) (vertices : List UInt32) :
    (addAtAll normal sums vertices).size = sums.size := by
  induction vertices generalizing sums with
  | nil => rfl
  | cons i rest ih =>
    change (addAtAll normal (sums.modify i.toNat (· + normal)) rest).size = _
    rw [ih, Array.size_modify]

theorem foldlM_addAt? {normal : Vec3} {sums : Array Vec3} {vertices : List UInt32}
    (within : ∀ i ∈ vertices, i.toNat < sums.size) :
    vertices.foldlM (addAt? normal) sums = some (addAtAll normal sums vertices) := by
  induction vertices generalizing sums with
  | nil => rfl
  | cons i rest ih =>
    have here := within i (List.mem_cons_self ..)
    have written : addAt? normal sums i = some (sums.modify i.toNat (· + normal)) := by
      rw [addAt?, dif_pos here]
      congr 1
      apply Array.ext (by simp)
      intro j hj _
      rw [Array.getElem_set, Array.getElem_modify]
      split
      · rename_i same
        subst same
        rfl
      · rfl
    rw [List.foldlM_cons, written]
    refine ih fun j mem => ?_
    rw [Array.size_modify]
    exact within j (List.mem_cons_of_mem _ mem)

theorem addFaceNormal_eq (points sums : Array Vec3) (face : UInt32 × UInt32 × UInt32) :
    addFaceNormal points sums face = match corners? points face with
      | some t => addAtAll t.areaNormal sums [face.1, face.2.1, face.2.2]
      | none => sums := by
  rw [addFaceNormal]
  cases corners? points face <;> rfl

theorem size_addFaceNormal (points sums : Array Vec3) (face : UInt32 × UInt32 × UInt32) :
    (addFaceNormal points sums face).size = sums.size := by
  rw [addFaceNormal_eq]
  split
  · exact size_addAtAll ..
  · rfl

theorem addFaceNormal?_eq (m : Mesh) {sums : Array Vec3} (size : sums.size = m.vertexCount)
    (face : UInt32 × UInt32 × UInt32) :
    m.addFaceNormal? sums face = some (addFaceNormal m.points.toArray sums face) := by
  rw [addFaceNormal?, addFaceNormal_eq]
  simp only [position?_eq, corners?, List.getElem?_toArray]
  split
  · rename_i a b c ha hb hc
    have within : ∀ i ∈ [face.1, face.2.1, face.2.2], i.toNat < sums.size := by
      have found : ∀ {i : Nat} {p}, m.points[i]? = some p → i < sums.size := by
        intro i p hp
        rw [size, ← m.length_points]
        exact (List.getElem?_eq_some_iff.1 hp).1
      simpa using ⟨found ha, found hb, found hc⟩
    simp only [ha, hb, hc]
    exact foldlM_addAt? within
  · rename_i missing
    cases ha : m.points[face.1.toNat]? with
    | none => rfl
    | some a =>
      cases hb : m.points[face.2.1.toNat]? with
      | none => rfl
      | some b =>
        cases hc : m.points[face.2.2.toNat]? with
        | none => rfl
        | some c => exact absurd hc (missing a b c ha hb)

theorem foldlM_addFaceNormal? (m : Mesh) (faces : List (UInt32 × UInt32 × UInt32))
    {sums : Array Vec3} (size : sums.size = m.vertexCount) :
    faces.foldlM m.addFaceNormal? sums
      = some (faces.foldl (addFaceNormal m.points.toArray) sums) := by
  induction faces generalizing sums with
  | nil => rfl
  | cons face rest ih =>
    rw [List.foldlM_cons, m.addFaceNormal?_eq size, List.foldl_cons]
    exact ih ((size_addFaceNormal ..).trans size)

theorem computeNormals?_eq (m : Mesh) : m.computeNormals? = some m.computeNormals := by
  rw [computeNormals?, computeNormals]
  cases m.indices with
  | none => rfl
  | some is =>
    dsimp only
    rw [m.foldlM_addFaceNormal? m.faces Array.size_replicate]
    rfl

def wholeFaces (m : Mesh) : List (UInt32 × UInt32 × UInt32) :=
  m.faces.filter fun face => face.1.toNat < m.vertexCount ∧ face.2.1.toNat < m.vertexCount ∧
    face.2.2.toNat < m.vertexCount

def shareOf (points : Array Vec3) (v : Nat) (face : UInt32 × UInt32 × UInt32) : List Vec3 :=
  match corners? points face with
  | some t => ([face.1, face.2.1, face.2.2].filter (·.toNat = v)).map fun _ => t.areaNormal
  | none => []

def shares (m : Mesh) (v : Nat) : List Vec3 := m.wholeFaces.flatMap (shareOf m.points.toArray v)

theorem getElem?_addAtAll (normal : Vec3) (sums : Array Vec3) (vertices : List UInt32) (v : Nat) :
    (addAtAll normal sums vertices)[v]? = sums[v]?.map
      (((vertices.filter (·.toNat = v)).map fun _ => normal).foldl (· + ·)) := by
  induction vertices generalizing sums with
  | nil => simp [addAtAll]
  | cons i rest ih =>
    change (addAtAll normal (sums.modify i.toNat (· + normal)) rest)[v]? = _
    rw [ih, Array.getElem?_modify]
    by_cases here : i.toNat = v
    · rw [if_pos here, List.filter_cons_of_pos (by simpa using here), Option.map_map]
      rfl
    · rw [if_neg here, List.filter_cons_of_neg (by simpa using here)]

theorem getElem?_addFaceNormal (points sums : Array Vec3) (face : UInt32 × UInt32 × UInt32)
    (v : Nat) : (addFaceNormal points sums face)[v]?
      = sums[v]?.map ((shareOf points v face).foldl (· + ·)) := by
  rw [addFaceNormal_eq, shareOf]
  cases corners? points face with
  | none => simp
  | some t => exact getElem?_addAtAll ..

theorem getElem?_foldl_addFaceNormal (points sums : Array Vec3)
    (faces : List (UInt32 × UInt32 × UInt32)) (v : Nat) :
    (faces.foldl (addFaceNormal points) sums)[v]?
      = sums[v]?.map ((faces.flatMap (shareOf points v)).foldl (· + ·)) := by
  induction faces generalizing sums with
  | nil => simp
  | cons face rest ih =>
    rw [List.foldl_cons, ih, getElem?_addFaceNormal, Option.map_map, List.flatMap_cons]
    congr 1
    funext s
    rw [List.foldl_append]
    rfl

theorem flatMap_shareOf (m : Mesh) (v : Nat) :
    m.faces.flatMap (shareOf m.points.toArray v) = m.shares v := by
  rw [shares, wholeFaces]
  induction m.faces with
  | nil => rfl
  | cons face rest ih =>
    rw [List.flatMap_cons, ih]
    by_cases whole : face.1.toNat < m.vertexCount ∧ face.2.1.toNat < m.vertexCount ∧
        face.2.2.toNat < m.vertexCount
    · rw [List.filter_cons_of_pos (by simpa using whole), List.flatMap_cons]
    · have nothing : shareOf m.points.toArray v face = [] := by
        rw [shareOf]
        cases found : corners? m.points.toArray face with
        | none => rfl
        | some t => exact absurd ((m.exists_corners?_iff face).1 ⟨t, found⟩) whole
      rw [List.filter_cons_of_neg (by simpa using whole), nothing, List.nil_append]

theorem getElem?_normalSums (m : Mesh) {v : Nat} (below : v < m.vertexCount) :
    m.normalSums[v]? = some ((m.shares v).foldl (· + ·) Vec3.zero) := by
  rw [normalSums, Array.getElem?_toList, getElem?_foldl_addFaceNormal, flatMap_shareOf,
    Array.getElem?_replicate, if_pos below, Option.map_some]

theorem shares_eq_nil {m : Mesh} {v : Nat}
    (unused : ∀ face ∈ m.wholeFaces, ∀ i ∈ [face.1, face.2.1, face.2.2], i.toNat ≠ v) :
    m.shares v = [] := by
  rw [shares, List.flatMap_eq_nil_iff]
  intro face mem
  rw [shareOf]
  split
  · rw [List.map_eq_nil_iff, List.filter_eq_nil_iff]
    intro i hi
    simpa using unused face mem i hi
  · rfl

theorem normalSums_congr {m m' : Mesh} (positions : m'.positions = m.positions)
    (whole : m'.wholeFaces = m.wholeFaces) : m'.normalSums = m.normalSums := by
  have count : m'.vertexCount = m.vertexCount := by rw [vertexCount, positions, vertexCount]
  have points : m'.points = m.points := by rw [Mesh.points, positions, Mesh.points]
  apply List.ext_getElem?
  intro v
  by_cases below : v < m.vertexCount
  · rw [getElem?_normalSums m below, getElem?_normalSums m' (count ▸ below), shares, points, whole,
      shares]
  · rw [List.getElem?_eq_none (by rw [length_normalSums]; omega),
      List.getElem?_eq_none (by rw [length_normalSums]; omega)]

section
variable {m : Mesh} {is : List UInt32}

theorem normals_computeNormals (indices : m.indices = some is) :
    m.computeNormals.normals = some (m.normalSums.flatMap (·.normalizeOrZero.toList)) := by
  rw [computeNormals]
  simp only [indices]

theorem normal?_computeNormals (indices : m.indices = some is) (v : Nat) :
    m.computeNormals.normal? v = m.normalSums[v]?.map Vec3.normalizeOrZero := by
  have flat : m.normalSums.flatMap (·.normalizeOrZero.toList)
      = (m.normalSums.map Vec3.normalizeOrZero).flatMap Vec3.toList := by
    rw [List.flatMap_map]
  rw [normal?, normals_computeNormals indices, Option.bind_some, Vec3.ofEntry?_eq,
    ← List.getElem?_map, flat, triples_flatMap_toList, List.getElem?_map]

end

theorem normalizeOrZero_zero : Vec3.zero.normalizeOrZero = Vec3.zero := rfl

/-- For every mesh, whatever state it is in: no access is out of range, and nothing but the normals
changes, without indices not even those. With indices there are three floats for each whole vertex:
the sum of what the whole triangles add there, made a unit vector, which is the zero vector where no
whole triangle has a corner. A mesh with the same positions and the same whole triangles gets the
same normals, whatever its old normals and its other triangles are. -/
theorem computeNormals_of_any (m : Mesh) :
    m.computeNormals? = some m.computeNormals ∧
    { m.computeNormals with normals := m.normals } = m ∧
    (m.indices = none → m.computeNormals = m) ∧
    ∀ is, m.indices = some is → ∃ normals, m.computeNormals.normals = some normals ∧
      normals.length = 3 * m.vertexCount ∧
      (∀ v < m.vertexCount, m.computeNormals.normal? v
        = some ((m.shares v).foldl (· + ·) Vec3.zero).normalizeOrZero) ∧
      (∀ v < m.vertexCount,
        (∀ face ∈ m.wholeFaces, ∀ i ∈ [face.1, face.2.1, face.2.2], i.toNat ≠ v) →
        m.computeNormals.normal? v = some Vec3.zero) ∧
      ∀ m' : Mesh, m'.positions = m.positions → m'.wholeFaces = m.wholeFaces →
        m'.indices.isSome → m'.computeNormals.normals = some normals := by
  refine ⟨m.computeNormals?_eq, ?_, fun absent => ?_, fun is indices => ?_⟩
  · rw [computeNormals]
    split <;> rfl
  · rw [computeNormals]
    simp only [absent]
  · have at_vertex : ∀ v < m.vertexCount, m.computeNormals.normal? v
        = some ((m.shares v).foldl (· + ·) Vec3.zero).normalizeOrZero := by
      intro v below
      rw [normal?_computeNormals indices, m.getElem?_normalSums below, Option.map_some]
    refine ⟨_, normals_computeNormals indices, ?_, at_vertex, fun v below unused => ?_, ?_⟩
    · rw [length_flatMap_of_length _ 3 fun _ => rfl, length_normalSums, Nat.mul_comm]
    · rw [at_vertex v below, shares_eq_nil unused, List.foldl_nil, normalizeOrZero_zero]
    · intro m' positions whole indexed
      obtain ⟨is', indices'⟩ := Option.isSome_iff_exists.1 indexed
      rw [normals_computeNormals indices', normalSums_congr positions whole]

/-- Four vertices and a float left over, normals for one vertex, a triangle, another one with a
corner that is missing, and an index left over. -/
def frayed : Mesh where
  positions := [0, 0, 0, 1, 0, 0, 0, 1, 0, 5, 5, 5, 9]
  normals := some [1, 0, 0]
  indices := some [0, 1, 2, 3, 0, 4, 3]

/-- The fourth vertex gets the zero vector. -/
theorem computeNormals_frayed : frayed.indices = some [0, 1, 2, 3, 0, 4, 3] ∧
    frayed.computeNormals? = some frayed.computeNormals ∧
    frayed.computeNormals.normal? 3 = some Vec3.zero ∧
    ({ frayed with normals := none, indices := some [0, 1, 2] } : Mesh).computeNormals.normals
      = frayed.computeNormals.normals := by
  obtain ⟨checked, -, -, made⟩ := computeNormals_of_any frayed
  obtain ⟨normals, found, -, -, zero, same⟩ := made [0, 1, 2, 3, 0, 4, 3] rfl
  have whole : frayed.wholeFaces = [(0, 1, 2)] := by decide +kernel
  refine ⟨rfl, checked, zero 3 (by decide +kernel) ?_, ?_⟩
  · simp [whole]
  · rw [found]
    exact same _ rfl (whole ▸ by decide +kernel) rfl

end Mesh
end MeshFlow
