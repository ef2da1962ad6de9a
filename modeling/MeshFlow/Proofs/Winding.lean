import MeshFlow.Proofs.Seams

set_option autoImplicit false

/-!
# Winding

Round shapes are rolled off onto a grid, with their columns to the right and up as it is up on the
shape. Seen from outside the columns go to the left, so that triangles which face outside turn right
on the grid. Those on the side of a cylinder do, and those of a sphere turn left.
-/
namespace MeshFlow

/-- Twice the area of a triangle. It is above zero if the corners go round to the left, and below
zero if they go round to the right. -/
def turn (p q r : Int × Int) : Int :=
  (q.1 - p.1) * (r.2 - p.2) - (q.2 - p.2) * (r.1 - p.1)

def Face.turn (place : Nat → Int × Int) (f : Face) : Int :=
  MeshFlow.turn (place f.a) (place f.b) (place f.c)

namespace Sphere

/-- The place of a vertex on the grid, with the rings from the north pole down. -/
def unrolled (segments vertex : Nat) : Int × Int :=
  let (ring, column) := gridPlace segments vertex
  (column, -ring)

theorem turn_inCell {segments ring segment : Nat} {f : Face} (hs : segment < segments)
    (h : f.InCell (segments + 1) (ring * (segments + 1) + segment)) :
    f.turn (unrolled segments) = 1 := by
  obtain ⟨a, b, c, d⟩ := gridPlace_corners ring hs
  rcases h with rfl | rfl | rfl <;>
    · simp only [Face.turn, turn, unrolled, a, b, c, d]
      push_cast
      ring

theorem map_turn_faces (segments : Nat) {rings : Nat} (two : 2 ≤ rings) :
    (faces segments rings).map (Face.turn (unrolled segments))
      = List.replicate (2 * segments * (rings - 1)) 1 := by
  refine List.eq_replicate_iff.2 ⟨?_, fun _ turned => ?_⟩
  · rw [List.length_map, length_faces segments two]
  · obtain ⟨f, hf, rfl⟩ := List.mem_map.1 turned
    obtain ⟨ring, -, segment, hs, cell⟩ := exists_cell hf
    exact turn_inCell hs cell

end Sphere

namespace Cylinder

/-- The place on the grid of a vertex of the side, of which the lower and the upper one of each
column follow those of the caps. -/
def unrolled (segments vertex : Nat) : Int × Int :=
  let behind := vertex - 2 * (segments + 1)
  ((behind / 2 : Nat), (behind % 2 : Nat))

/-- All corners are behind the vertices of the caps. -/
def OnSide (segments : Nat) (f : Face) : Prop :=
  2 * (segments + 1) ≤ f.a ∧ 2 * (segments + 1) ≤ f.b ∧ 2 * (segments + 1) ≤ f.c

instance (segments : Nat) (f : Face) : Decidable (OnSide segments f) :=
  inferInstanceAs (Decidable (_ ∧ _ ∧ _))

theorem unrolled_low (segments column : Nat) :
    unrolled segments (2 * (segments + 1) + 2 * column) = ((column : Int), 0) := by
  simp [unrolled]

theorem unrolled_high (segments column : Nat) :
    unrolled segments (2 * (segments + 1) + 2 * column + 1) = ((column : Int), 1) := by
  simp [unrolled, Nat.add_assoc, Nat.mul_add_div]

theorem turn_columnFaces (segments step : Nat) :
    ∀ f ∈ columnFaces segments step, f.turn (unrolled segments) = -1 := by
  have low := unrolled_low segments step
  have high := unrolled_high segments step
  have lowNext : unrolled segments (2 * (segments + 1) + 2 * step + 2) = ((step : Int) + 1, 0) :=
    unrolled_low segments (step + 1)
  have highNext : unrolled segments (2 * (segments + 1) + 2 * step + 3) = ((step : Int) + 1, 1) :=
    unrolled_high segments (step + 1)
  intro f hf
  simp only [columnFaces, Face.quad, List.mem_cons, List.not_mem_nil, or_false] at hf
  rcases hf with rfl | rfl
  · rw [Face.turn, turn, low, high, highNext]
    ring
  · rw [Face.turn, turn, low, highNext, lowNext]
    ring

theorem not_onSide_capFace {below : Bool} {centre segments step : Nat}
    (le : centre ≤ segments + 1) : ¬OnSide segments (capFace below centre segments step) := by
  rintro ⟨first, -⟩
  rw [capFace] at first
  split at first <;> dsimp only at first <;> omega

theorem onSide_columnFaces (segments step : Nat) :
    ∀ f ∈ columnFaces segments step, OnSide segments f := by
  intro f hf
  simp only [columnFaces, Face.quad, List.mem_cons, List.not_mem_nil, or_false] at hf
  rcases hf with rfl | rfl <;> refine ⟨?_, ?_, ?_⟩ <;> dsimp only <;> omega

theorem filter_onSide_faces (lowerBelow upperBelow : Bool) (segments : Nat) :
    (faces lowerBelow upperBelow segments).filter (OnSide segments) = sideFaces segments := by
  have cap : ∀ below centre, centre ≤ segments + 1 →
      (capFaces below centre segments).filter (OnSide segments) = [] := by
    intro below centre le
    rw [capFaces_eq, List.filter_eq_nil_iff]
    intro f hf
    obtain ⟨step, -, rfl⟩ := List.mem_map.1 hf
    rw [decide_eq_true_eq]
    exact not_onSide_capFace le
  have side : (sideFaces segments).filter (OnSide segments) = sideFaces segments := by
    rw [sideFaces_eq, List.filter_eq_self]
    intro f hf
    obtain ⟨step, -, hf⟩ := List.mem_flatMap.1 hf
    exact decide_eq_true (onSide_columnFaces segments step f hf)
  rw [faces, List.filter_append, List.filter_append, cap _ _ (Nat.zero_le _), cap _ _ le_rfl, side]
  rfl

theorem map_turn_sideFaces (segments : Nat) :
    (sideFaces segments).map (Face.turn (unrolled segments))
      = List.replicate (2 * segments) (-1) := by
  refine List.eq_replicate_iff.2 ⟨?_, fun _ turned => ?_⟩
  · rw [List.length_map, length_sideFaces]
  · obtain ⟨f, hf, rfl⟩ := List.mem_map.1 turned
    rw [sideFaces_eq] at hf
    obtain ⟨step, -, hf⟩ := List.mem_flatMap.1 hf
    exact turn_columnFaces segments step f hf

end Cylinder

/-- All triangles of a sphere turn left on its grid, and all on the side of a cylinder turn right.
So if one of them faces outside, as its normals do, the other one does not. -/
theorem turns_of_round (ball : Sphere) (tube : Cylinder) :
    ((ball.segmentCount + 1) * (ball.ringCount + 1) < 2 ^ 32 →
      ball.toMesh.corners.map (Face.turn (Sphere.unrolled ball.segmentCount))
        = List.replicate (2 * ball.segmentCount * (ball.ringCount - 1)) 1) ∧
    (4 * (tube.segmentCount + 1) < 2 ^ 32 →
      (tube.toMesh.corners.filter (Cylinder.OnSide tube.segmentCount)).map
          (Face.turn (Cylinder.unrolled tube.segmentCount))
        = List.replicate (2 * tube.segmentCount) (-1)) := by
  refine ⟨fun few => ?_, fun few => ?_⟩
  · rw [Nat.mul_comm] at few
    have all : ball.toMesh.corners = Sphere.faces ball.segmentCount ball.ringCount :=
      Mesh.corners_ofSurface few Sphere.below_faces
    rw [all]
    exact Sphere.map_turn_faces _ (Nat.le_max_left ..)
  · have all : tube.toMesh.corners
        = Cylinder.faces (-(tube.height / 2) < 0) (tube.height / 2 < 0) tube.segmentCount :=
      Mesh.corners_ofSurface few Cylinder.below_faces
    rw [all, Cylinder.filter_onSide_faces]
    exact Cylinder.map_turn_sideFaces _

/-- The coarsest sphere, and a cylinder with as many columns. -/
theorem turns_of_coarse :
    (4 * 3 < 2 ^ 32 ∧ (Sphere.mk 1 3 2).toMesh.corners.map (Face.turn (Sphere.unrolled 3))
      = [1, 1, 1, 1, 1, 1]) ∧
    4 * 4 < 2 ^ 32 ∧
      ((Cylinder.mk 1 2 3).toMesh.corners.filter (Cylinder.OnSide 3)).map
          (Face.turn (Cylinder.unrolled 3)) = [-1, -1, -1, -1, -1, -1] := by
  obtain ⟨ball, tube⟩ := turns_of_round ⟨1, 3, 2⟩ ⟨1, 2, 3⟩
  exact ⟨⟨by decide, ball (by decide)⟩, by decide, tube (by decide)⟩

end MeshFlow
