import MeshFlow.Proofs.Crossing

set_option autoImplicit false

/-!
# Points in a box

A box contains a point if the ray crosses its surface an odd number of times. The ray is parallel to
four of the six sides and never meets them. Of the two sides across it the one that is met ahead of
the point counts, and it counts twice if the point is met on the diagonal that the side is cut
along; so no point of a box on the diagonal of its right side, such as its centre, is found inside,
and points on the left of a box are found inside if the ray meets one of the two diagonals.
-/
namespace MeshFlow
open Number Space Crossing

namespace Space.Triangle

theorem rayDistance?_of_flat (t : Triangle) (origin : Vec3) {x y z x' y' z' : ℚ}
    (first : (t.b - t.a).Sized 33 x y z) (second : (t.c - t.a).Sized 33 x' y' z')
    (flat : y = 0 ∧ y' = 0 ∨ z = 0 ∧ z' = 0) : t.rayDistance? origin .unitX = none := by
  have det := first.dot (second.unitX_cross (by norm_num)) (by norm_num)
  refine t.rayDistance?_of_lt origin .unitX det ?_
  have positive : 0 < leeway := (two_zpow_pos _).trans_le leeway_bounds.1
  rcases flat with ⟨rfl, rfl⟩ | ⟨rfl, rfl⟩ <;> simpa [nearest_zero] using positive

end Space.Triangle

namespace Cuboid
namespace Side

def triangles (side : Side) : List Triangle := [⟨side.a, side.b, side.c⟩, ⟨side.a, side.c, side.d⟩]

def corners (side : Side) : List Vec3 := [side.a, side.b, side.c, side.d]

def hits (side : Side) (point : Vec3) : ℕ := crossings side.triangles point

/-- The rectangle lies in a plane that the ray keeps to. -/
inductive Level (side : Side) : Prop where
  | y {y ax az bx bz cx cz dx dz : ℚ} (a : side.a.Sized 32 ax y az) (b : side.b.Sized 32 bx y bz)
    (c : side.c.Sized 32 cx y cz) (d : side.d.Sized 32 dx y dz)
  | z {z ax ay bx by' cx cy dx dy : ℚ} (a : side.a.Sized 32 ax ay z) (b : side.b.Sized 32 bx by' z)
    (c : side.c.Sized 32 cx cy z) (d : side.d.Sized 32 dx dy z)

theorem hits_of_level {side : Side} (level : side.Level) (point : Vec3) : side.hits point = 0 := by
  have flat : ∀ t ∈ side.triangles, t.rayDistance? point .unitX = none := by
    intro t among
    have equal : ∀ q : ℚ, nearest (q - q) = 0 := fun q => by rw [sub_self, nearest_zero]
    cases level with
    | y a b c d =>
      obtain rfl | rfl := List.mem_pair.1 among
      · exact Triangle.rayDistance?_of_flat _ point (b.sub a (by norm_num)) (c.sub a (by norm_num))
          (.inl ⟨equal _, equal _⟩)
      · exact Triangle.rayDistance?_of_flat _ point (c.sub a (by norm_num)) (d.sub a (by norm_num))
          (.inl ⟨equal _, equal _⟩)
    | z a b c d =>
      obtain rfl | rfl := List.mem_pair.1 among
      · exact Triangle.rayDistance?_of_flat _ point (b.sub a (by norm_num)) (c.sub a (by norm_num))
          (.inr ⟨equal _, equal _⟩)
      · exact Triangle.rayDistance?_of_flat _ point (c.sub a (by norm_num)) (d.sub a (by norm_num))
          (.inr ⟨equal _, equal _⟩)
  refine List.countP_eq_zero.2 fun t among => ?_
  rw [flat t among]
  decide

end Side

theorem points_toMesh (box : Cuboid) : box.toMesh.points = box.sides.flatMap Side.corners := rfl

theorem faces_toMesh (box : Cuboid) :
    box.toMesh.faces = faces.map fun f => (.ofNat f.a, .ofNat f.b, .ofNat f.c) := by rfl

theorem surface_toMesh (box : Cuboid) :
    box.toMesh.surface = box.sides.flatMap Side.triangles := by
  rw [Mesh.surface, Mesh.triangles, points_toMesh, faces_toMesh]
  rfl

section
variable (box : Cuboid)

def front : Side :=
  let x := box.width / 2
  let y := box.height / 2
  let z := box.depth / 2
  ⟨⟨-x, -y, z⟩, ⟨x, -y, z⟩, ⟨x, y, z⟩, ⟨-x, y, z⟩, ⟨0, 0, 1⟩⟩

def rear : Side :=
  let x := box.width / 2
  let y := box.height / 2
  let z := box.depth / 2
  ⟨⟨x, -y, -z⟩, ⟨-x, -y, -z⟩, ⟨-x, y, -z⟩, ⟨x, y, -z⟩, ⟨0, 0, -1⟩⟩

def right : Side :=
  let x := box.width / 2
  let y := box.height / 2
  let z := box.depth / 2
  ⟨⟨x, -y, z⟩, ⟨x, -y, -z⟩, ⟨x, y, -z⟩, ⟨x, y, z⟩, ⟨1, 0, 0⟩⟩

def left : Side :=
  let x := box.width / 2
  let y := box.height / 2
  let z := box.depth / 2
  ⟨⟨-x, -y, -z⟩, ⟨-x, -y, z⟩, ⟨-x, y, z⟩, ⟨-x, y, -z⟩, ⟨-1, 0, 0⟩⟩

def top : Side :=
  let x := box.width / 2
  let y := box.height / 2
  let z := box.depth / 2
  ⟨⟨-x, y, z⟩, ⟨x, y, z⟩, ⟨x, y, -z⟩, ⟨-x, y, -z⟩, ⟨0, 1, 0⟩⟩

def bottom : Side :=
  let x := box.width / 2
  let y := box.height / 2
  let z := box.depth / 2
  ⟨⟨-x, -y, -z⟩, ⟨x, -y, -z⟩, ⟨x, -y, z⟩, ⟨-x, -y, z⟩, ⟨0, -1, 0⟩⟩

theorem sides_eq :
    box.sides = [box.front, box.rear, box.right, box.left, box.top, box.bottom] := rfl

end

section
variable {box : Cuboid} {x y z : ℚ}
variable (halfWidth : Sized 32 (box.width / 2) x) (halfHeight : Sized 32 (box.height / 2) y)
variable (halfDepth : Sized 32 (box.depth / 2) z)
include halfWidth halfHeight halfDepth

theorem across_right : Across box.right x y (1 * z) := by
  rw [one_mul]
  exact ⟨⟨halfWidth, halfHeight.neg, halfDepth⟩, ⟨halfWidth, halfHeight.neg, halfDepth.neg⟩,
    ⟨halfWidth, halfHeight, halfDepth.neg⟩, ⟨halfWidth, halfHeight, halfDepth⟩⟩

theorem across_left : Across box.left (-x) y (-1 * z) := by
  have back : Sized 32 (box.depth / 2) (-(-z)) := halfDepth.of_eq (neg_neg z).symm
  rw [neg_one_mul]
  exact ⟨⟨halfWidth.neg, halfHeight.neg, halfDepth.neg⟩, ⟨halfWidth.neg, halfHeight.neg, back⟩,
    ⟨halfWidth.neg, halfHeight, back⟩, ⟨halfWidth.neg, halfHeight, halfDepth.neg⟩⟩

theorem crossings_toMesh (point : Vec3) :
    crossings box.toMesh.surface point = box.right.hits point + box.left.hits point := by
  have front : box.front.Level :=
    .z ⟨halfWidth.neg, halfHeight.neg, halfDepth⟩ ⟨halfWidth, halfHeight.neg, halfDepth⟩
      ⟨halfWidth, halfHeight, halfDepth⟩ ⟨halfWidth.neg, halfHeight, halfDepth⟩
  have rear : box.rear.Level :=
    .z ⟨halfWidth, halfHeight.neg, halfDepth.neg⟩ ⟨halfWidth.neg, halfHeight.neg, halfDepth.neg⟩
      ⟨halfWidth.neg, halfHeight, halfDepth.neg⟩ ⟨halfWidth, halfHeight, halfDepth.neg⟩
  have top : box.top.Level :=
    .y ⟨halfWidth.neg, halfHeight, halfDepth⟩ ⟨halfWidth, halfHeight, halfDepth⟩
      ⟨halfWidth, halfHeight, halfDepth.neg⟩ ⟨halfWidth.neg, halfHeight, halfDepth.neg⟩
  have bottom : box.bottom.Level :=
    .y ⟨halfWidth.neg, halfHeight.neg, halfDepth.neg⟩ ⟨halfWidth, halfHeight.neg, halfDepth.neg⟩
      ⟨halfWidth, halfHeight.neg, halfDepth⟩ ⟨halfWidth.neg, halfHeight.neg, halfDepth⟩
  have total : crossings box.toMesh.surface point = (box.sides.map (·.hits point)).sum := by
    rw [crossings, surface_toMesh, List.countP_flatMap]
    rfl
  rw [total, sides_eq]
  simp only [List.map_cons, List.map_nil, List.sum_cons, List.sum_nil, Side.hits_of_level front,
    Side.hits_of_level rear, Side.hits_of_level top, Side.hits_of_level bottom]
  omega

theorem containsPoint_iff (point : Vec3) :
    box.toMesh.containsPoint point ↔
      ¬(Odd (box.right.hits point) ↔ Odd (box.left.hits point)) := by
  rw [Mesh.containsPoint, isInside, crossings_toMesh halfWidth halfHeight halfDepth, beq_iff_eq,
    ← Nat.odd_iff, Nat.odd_add, ← Nat.not_odd_iff_even]
  exact iff_comm.trans (not_iff_comm.trans not_iff.symm)

end
end Cuboid

namespace Crossing

theorem areaOf_comm (y z : ℚ) : areaOf y z = areaOf z y := by rw [areaOf, areaOf, mul_comm]

/-- Half a height and half a depth that are of ordinary size, and make an area that counts. -/
structure Roomy (y z : ℚ) : Prop where
  y_ge : 2 ^ (-61 : ℤ) ≤ y
  z_ge : 2 ^ (-61 : ℤ) ≤ z
  y_le : y ≤ 2 ^ 31
  z_le : z ≤ 2 ^ 31
  large : Triangle.leeway ≤ areaOf y z

namespace Roomy
variable {y z p gap : ℚ}

theorem symm (roomy : Roomy y z) : Roomy z y :=
  ⟨roomy.z_ge, roomy.y_ge, roomy.z_le, roomy.y_le, areaOf_comm y z ▸ roomy.large⟩

theorem y_pos (roomy : Roomy y z) : 0 < y := (two_zpow_pos _).trans_le roomy.y_ge

theorem z_pos (roomy : Roomy y z) : 0 < z := roomy.symm.y_pos

theorem plain (roomy : Roomy y z) : Plain (areaOf y z) := by
  refine ⟨Triangle.leeway_bounds.1.trans roomy.large, nearest_le (fits_two_zpow (by norm_num)) ?_⟩
  have height : 2 * y ≤ 2 ^ 32 := by linarith [roomy.y_le]
  have depth : 2 * z ≤ 2 ^ 32 := by linarith [roomy.z_le]
  calc 2 * y * (2 * z) ≤ 2 ^ 32 * 2 ^ 32 :=
        mul_le_mul height depth (by linarith [roomy.z_pos]) (by norm_num)
    _ ≤ 2 ^ (90 : ℤ) := by norm_num

theorem near_area (roomy : Roomy y z) : Near 1 (areaOf y z) (2 * y * (2 * z)) := by
  apply near_nearest
  calc (2 : ℚ) ^ (-126 : ℤ) ≤ 2 ^ (-61 : ℤ) * 2 ^ (-61 : ℤ) := by norm_num
    _ ≤ y * z := mul_le_mul roomy.y_ge roomy.z_ge (two_zpow_pos _).le roomy.y_pos.le
    _ ≤ 2 * y * (2 * z) := by linarith [mul_pos roomy.y_pos roomy.z_pos]

theorem product_ge (roomy : Roomy y z) : 2 ^ (-25 : ℤ) ≤ 2 * y * (2 * z) := by
  have near := roomy.near_area.le
  have large := roomy.plain.large
  norm_num [shrink] at near large ⊢
  linarith

theorem near_reach (roomy : Roomy y z) (away : y / 2 ^ 19 ≤ y + p) :
    Near 3 (reach y z p) ((y + p) / (2 * y) * areaOf y z) := by
  have positive := roomy.y_pos
  have deep := roomy.z_pos
  have some : 0 < y + p := (div_pos positive (by norm_num)).trans_le away
  have first : Near 1 (nearest (y + p)) (y + p) := near_nearest (by
    have := roomy.y_ge
    norm_num at this away ⊢
    linarith)
  have share : (y + p) * (2 * z) = 2 * y * (2 * z) * ((y + p) / (2 * y)) := by
    field_simp
  have long : 1 / 2 ^ 20 * (2 * y * (2 * z)) ≤ (y + p) * (2 * z) := by
    have := mul_le_mul_of_nonneg_right away (mul_pos two_pos deep).le
    linarith
  have second : Near 1 (reach y z p) (nearest (y + p) * (2 * z)) := near_nearest (by
    have kept := (first.mul_right (mul_pos two_pos deep).le).ge
    have := roomy.product_ge
    norm_num [shrink] at kept this long ⊢
    linarith)
  have third := first.mul_right (mul_pos two_pos deep).le
  have fourth := roomy.near_area.symm.mul_right (div_pos some (mul_pos two_pos positive)).le
  rw [← share, mul_comm (areaOf y z)] at fourth
  exact (second.trans third).trans fourth

theorem reach_neg (y z p : ℚ) : reach y z (-(2 * y) - p) = -reach y z p := by
  rw [reach, reach, show y + (-(2 * y) - p) = -(y + p) by ring, nearest_neg, neg_mul, nearest_neg]

theorem reach_inside (roomy : Roomy y z) (inside : |p| ≤ (1 - 1 / 2 ^ 19) * y) :
    areaOf y z / 2 ^ 21 ≤ reach y z p ∧ reach y z p ≤ (1 - 1 / 2 ^ 21) * areaOf y z := by
  have positive := roomy.y_pos
  obtain ⟨low, high⟩ := abs_le.1 inside
  have near := roomy.near_reach (p := p) (by linarith)
  have area := roomy.plain.pos
  have share_low : 1 / 2 ^ 20 ≤ (y + p) / (2 * y) := by
    rw [le_div_iff₀ (mul_pos two_pos positive)]
    linarith
  have share_high : (y + p) / (2 * y) ≤ 1 - 1 / 2 ^ 20 := by
    rw [div_le_iff₀ (mul_pos two_pos positive)]
    linarith
  have below := mul_le_mul_of_nonneg_right share_low area.le
  have above := mul_le_mul_of_nonneg_right share_high area.le
  obtain ⟨le, ge⟩ := near
  norm_num [shrink] at le ge below above ⊢
  constructor <;> linarith

theorem reach_outside (roomy : Roomy y z) (outside : (1 + 1 / 2 ^ 19) * y ≤ |p|) :
    reach y z p ≤ -(areaOf y z / 2 ^ 21) ∨ (1 + 1 / 2 ^ 21) * areaOf y z ≤ reach y z p := by
  have positive := roomy.y_pos
  have area := roomy.plain.pos
  rcases le_abs'.1 outside with below | above
  · left
    have ge := (roomy.near_reach (p := -(2 * y) - p) (by linarith)).ge
    have share : 1 / 2 ^ 20 ≤ (y + (-(2 * y) - p)) / (2 * y) := by
      rw [le_div_iff₀ (mul_pos two_pos positive)]
      linarith
    have part := mul_le_mul_of_nonneg_right share area.le
    rw [reach_neg] at ge
    norm_num [shrink] at ge part ⊢
    linarith
  · right
    have ge := (roomy.near_reach (p := p) (by linarith)).ge
    have share : 1 + 1 / 2 ^ 20 ≤ (y + p) / (2 * y) := by
      rw [le_div_iff₀ (mul_pos two_pos positive)]
      linarith
    have part := mul_le_mul_of_nonneg_right share area.le
    norm_num [shrink] at ge part ⊢
    linarith

theorem ahead_nonpos (roomy : Roomy y z) (behind : gap ≤ 0) : ahead y z gap ≤ 0 := by
  have first : nearest (2 * z * gap) ≤ 0 :=
    nearest_nonpos (mul_nonpos_of_nonneg_of_nonpos (by linarith [roomy.z_pos]) behind)
  have second : nearest (2 * y * nearest (2 * z * gap)) ≤ 0 :=
    nearest_nonpos (mul_nonpos_of_nonneg_of_nonpos (by linarith [roomy.y_pos]) first)
  exact nearest_nonpos (mul_nonpos_of_nonpos_of_nonneg second roomy.plain.inverse_bounds.1.le)

theorem le_ahead (roomy : Roomy y z) (some : 2 ^ (-23 : ℤ) ≤ gap) : 3 / 4 * gap ≤ ahead y z gap := by
  have positive := (two_zpow_pos (-23)).trans_le some
  have wide := roomy.y_pos
  have deep := roomy.z_pos
  have kept : ∀ {q : ℚ}, 2 ^ (-126 : ℤ) ≤ q → shrink * q ≤ nearest q := fun normal => by
    simpa using (near_nearest normal).ge
  have first : shrink * (2 * z * gap) ≤ nearest (2 * z * gap) := kept (by
    calc (2 : ℚ) ^ (-126 : ℤ) ≤ 2 * 2 ^ (-61 : ℤ) * 2 ^ (-23 : ℤ) := by norm_num
      _ ≤ 2 * z * gap := mul_le_mul (by linarith [roomy.z_ge]) some (two_zpow_pos _).le (by linarith))
  have spanned : shrink * (2 * y * (2 * z) * gap) ≤ 2 * y * nearest (2 * z * gap) := by
    have := mul_le_mul_of_nonneg_left first (show 0 ≤ 2 * y by linarith)
    linarith
  have large : 2 ^ (-48 : ℤ) ≤ 2 * y * (2 * z) * gap := by
    calc (2 : ℚ) ^ (-48 : ℤ) = 2 ^ (-25 : ℤ) * 2 ^ (-23 : ℤ) := by norm_num
      _ ≤ 2 * y * (2 * z) * gap :=
        mul_le_mul roomy.product_ge some (two_zpow_pos _).le (by positivity)
  have second := kept (q := 2 * y * nearest (2 * z * gap)) (by
    norm_num [shrink] at spanned large ⊢
    linarith)
  obtain ⟨inverse_pos, whole, -, -⟩ := roomy.plain.inverse_bounds
  -- Times the rounded inverse, the exact area leaves nearly the whole gap.
  have quotient : shrink ^ 4 * gap
      ≤ nearest (2 * y * nearest (2 * z * gap)) * nearest (1 / areaOf y z) := by
    calc shrink ^ 4 * gap = shrink ^ 3 * gap * shrink := by ring
      _ ≤ shrink ^ 3 * gap * (areaOf y z * nearest (1 / areaOf y z)) :=
          mul_le_mul_of_nonneg_left whole (mul_pos (pow_pos shrink_pos 3) positive).le
      _ = shrink ^ 2 * gap * (shrink ^ 1 * areaOf y z) * nearest (1 / areaOf y z) := by ring
      _ ≤ shrink ^ 2 * gap * (2 * y * (2 * z)) * nearest (1 / areaOf y z) :=
          mul_le_mul_of_nonneg_right (mul_le_mul_of_nonneg_left roomy.near_area.le
            (mul_pos (pow_pos shrink_pos 2) positive).le) inverse_pos.le
      _ = shrink * (shrink * (2 * y * (2 * z) * gap)) * nearest (1 / areaOf y z) := by ring
      _ ≤ nearest (2 * y * nearest (2 * z * gap)) * nearest (1 / areaOf y z) :=
          mul_le_mul_of_nonneg_right
            ((mul_le_mul_of_nonneg_left spanned shrink_pos.le).trans second) inverse_pos.le
  have third := kept (q := nearest (2 * y * nearest (2 * z * gap)) * nearest (1 / areaOf y z)) (by
    norm_num [shrink] at quotient some ⊢
    linarith)
  calc 3 / 4 * gap ≤ shrink * (shrink ^ 4 * gap) := by
        norm_num [shrink]
        linarith
    _ ≤ shrink * (nearest (2 * y * nearest (2 * z * gap)) * nearest (1 / areaOf y z)) :=
        mul_le_mul_of_nonneg_left quotient shrink_pos.le
    _ ≤ ahead y z gap := third

end Roomy
end Crossing

namespace Cuboid

/-- The ray from a point meets a side of the box where the side is cut, as far as is computed: the
two numbers that tell the triangles apart are equal. -/
def OnDiagonal (h d y z : ℚ) : Prop :=
  nearest (nearest (h / 2 + y) * d) = nearest (nearest (d / 2 + z) * h)

theorem onDiagonal_iff (h d y z : ℚ) :
    OnDiagonal h d y z ↔ reach (h / 2) (d / 2) y = reach (d / 2) (h / 2) z := by
  rw [OnDiagonal, reach, reach, mul_div_cancel₀ d two_ne_zero, mul_div_cancel₀ h two_ne_zero]

theorem abs_turned {sign z : ℚ} (turned : sign = 1 ∨ sign = -1) : |-(sign * z)| = |z| := by
  rcases turned with rfl | rfl <;> simp

theorem odd_countP_pair {α : Type} (p : α → Bool) (a b : α) :
    Odd ([a, b].countP p) ↔ ¬(p a ↔ p b) := by
  rw [List.countP_cons, List.countP_cons, List.countP_nil, zero_add]
  cases p a <;> cases p b <;> decide

section
variable {side : Side} {point : Vec3} {x y z px py pz sign : ℚ}
variable (across : Across side x y (sign * z)) (turned : sign = 1 ∨ sign = -1)
variable (at_point : point.Sized 32 px py pz)
include across turned at_point

namespace Side

theorem odd_hits_iff : Odd (side.hits point) ↔
    Triangle.leeway ≤ |areaOf y z| ∧ Triangle.leeway < ahead y z (nearest (x - px)) ∧
      ¬(Hits (areaOf y z) (reach y z py) (reach z y (-(sign * pz))) ↔
        Hits (areaOf y z) (reach z y (-(sign * pz))) (reach y z py)) := by
  have lower := isSome_lower_iff across turned at_point
  have upper := isSome_upper_iff across turned at_point
  rw [hits, crossings, triangles, odd_countP_pair, lower, upper, and_congr_right_iff,
    and_congr_left_iff, Classical.not_imp, Classical.not_imp]

theorem not_odd_hits_of_thin (thin : |areaOf y z| < Triangle.leeway) : ¬Odd (side.hits point) := by
  rw [odd_hits_iff across turned at_point]
  exact fun counts => absurd counts.1 (not_le.2 thin)

theorem not_odd_hits_of_diagonal (diagonal : reach y z py = reach z y (-(sign * pz))) :
    ¬Odd (side.hits point) := by
  rw [odd_hits_iff across turned at_point, diagonal]
  exact fun counts => counts.2.2 Iff.rfl

section
variable (roomy : Roomy y z)
include roomy

theorem not_odd_hits_of_behind (behind : x ≤ px) : ¬Odd (side.hits point) := by
  rw [odd_hits_iff across turned at_point]
  intro counts
  have nonpos := roomy.ahead_nonpos (nearest_nonpos (sub_nonpos.2 behind))
  have positive := (two_zpow_pos (-24)).trans_le Triangle.leeway_bounds.1
  exact absurd counts.2.1 (not_lt.2 (nonpos.trans positive.le))

theorem not_odd_hits_of_outside
    (outside : (1 + 1 / 2 ^ 19) * y ≤ |py| ∨ (1 + 1 / 2 ^ 19) * z ≤ |pz|) :
    ¬Odd (side.hits point) := by
  rw [odd_hits_iff across turned at_point]
  rintro ⟨-, -, differ⟩
  rcases outside with above | beside
  · obtain ⟨lower, upper⟩ := not_hits (b := reach z y (-(sign * pz))) roomy.plain
      (roomy.reach_outside above)
    exact differ (iff_of_false lower upper)
  · have far := roomy.symm.reach_outside (p := -(sign * pz)) (by rwa [abs_turned turned])
    rw [areaOf_comm] at far
    obtain ⟨lower, upper⟩ := not_hits (b := reach y z py) roomy.plain far
    exact differ (iff_of_false upper lower)

theorem odd_hits_iff_of_inside (inside_y : |py| ≤ (1 - 1 / 2 ^ 19) * y)
    (inside_z : |pz| ≤ (1 - 1 / 2 ^ 19) * z) (gap : 1 / 2 ^ 22 - 2 ^ (-100 : ℤ) ≤ x - px) :
    Odd (side.hits point) ↔ reach y z py ≠ reach z y (-(sign * pz)) := by
  obtain ⟨low, high⟩ := roomy.reach_inside inside_y
  obtain ⟨low', high'⟩ :=
    roomy.symm.reach_inside (p := -(sign * pz)) (by rwa [abs_turned turned])
  rw [areaOf_comm] at low' high'
  have fits : Fits (reach y z py) := fits_nearest _
  have fits' : Fits (reach z y (-(sign * pz))) := fits_nearest _
  have near : shrink * (1 / 2 ^ 22 - 2 ^ (-100 : ℤ)) ≤ nearest (x - px) := by
    have kept := (near_nearest (show 2 ^ (-126 : ℤ) ≤ x - px by norm_num at gap ⊢; linarith)).ge
    rw [pow_one] at kept
    exact (mul_le_mul_of_nonneg_left gap shrink_pos.le).trans kept
  rw [odd_hits_iff across turned at_point]
  constructor
  · rintro ⟨-, -, differ⟩ equal
    rw [equal] at differ
    exact differ Iff.rfl
  · intro differ
    refine ⟨roomy.large.trans (le_abs_self _), ?_, ?_⟩
    · have ahead : 3 / 4 * nearest (x - px) ≤ ahead y z (nearest (x - px)) := roomy.le_ahead (by
        norm_num [shrink] at near ⊢
        linarith)
      have leeway := Triangle.leeway_bounds.2
      norm_num [shrink] at near ahead leeway ⊢
      linarith
    · rcases differ.lt_or_gt with less | greater
      · obtain ⟨lower, upper⟩ := hits_of_lt roomy.plain fits fits' low less high'
        exact fun both => upper (both.1 lower)
      · obtain ⟨upper, lower⟩ := hits_of_lt roomy.plain fits' fits low' greater high
        exact fun both => lower (both.2 upper)

end
end Side
end

/-- What a side at `edge` counts: nothing for points level with it or past it, off its rim or on its
diagonal, and once for points well within its rim and some way before it. -/
structure Side.Counts (side : Side) (point : Vec3) (edge h d x y z : ℚ) : Prop where
  past : edge ≤ x → ¬Odd (side.hits point)
  outside : (1 + 1 / 2 ^ 19) * (h / 2) ≤ |y| ∨ (1 + 1 / 2 ^ 19) * (d / 2) ≤ |z| →
    ¬Odd (side.hits point)
  diagonal : OnDiagonal h d y z → ¬Odd (side.hits point)
  inside : |y| ≤ (1 - 1 / 2 ^ 19) * (h / 2) → |z| ≤ (1 - 1 / 2 ^ 19) * (d / 2) →
    x ≤ edge - 1 / 2 ^ 22 → (Odd (side.hits point) ↔ ¬OnDiagonal h d y z)

theorem Side.counts {side : Side} {point : Vec3} {edge h d x y z sign : ℚ}
    (across : Across side (nearest edge) (h / 2) (sign * (d / 2))) (turned : sign = 1 ∨ sign = -1)
    (at_point : point.Sized 32 x y z) (roomy : Roomy (h / 2) (d / 2))
    (close : edge - 2 ^ (-100 : ℤ) ≤ nearest edge) :
    side.Counts point edge h d x y (-(sign * z)) := by
  constructor
  case past =>
    intro past
    exact not_odd_hits_of_behind across turned at_point roomy
      (nearest_le at_point.x.stands.fits past)
  case outside =>
    rw [abs_turned turned]
    exact not_odd_hits_of_outside across turned at_point roomy
  case diagonal =>
    rw [onDiagonal_iff]
    exact not_odd_hits_of_diagonal across turned at_point
  case inside =>
    rw [abs_turned turned, onDiagonal_iff]
    intro inside_y inside_z before
    refine odd_hits_iff_of_inside across turned at_point roomy inside_y inside_z ?_
    calc 1 / 2 ^ 22 - 2 ^ (-100 : ℤ) ≤ edge - x - 2 ^ (-100 : ℤ) := by linarith
      _ = edge - 2 ^ (-100 : ℤ) - x := by ring
      _ ≤ nearest edge - x := sub_le_sub_right close x

/-- The numbers of a box, above zero and up to about four billion. -/
structure Measures (box : Cuboid) (w h d : ℚ) : Prop where
  width : Sized 32 box.width w
  height : Sized 32 box.height h
  depth : Sized 32 box.depth d
  width_pos : 0 < w
  height_pos : 0 < h
  depth_pos : 0 < d

theorem fits_half {q : ℚ} (fits : Fits q) (normal : 2 ^ (-100 : ℤ) ≤ q) : Fits (q / 2) := by
  obtain ⟨n, e, short, least, rfl⟩ := fits
  refine ⟨n, e - 1, short, ?_, by rw [zpow_sub₀ two_ne_zero]; ring⟩
  by_contra fine
  have exact : e = -149 := by omega
  subst exact
  have bound : (n : ℚ) ≤ 2 ^ 24 := by exact_mod_cast (le_abs_self n).trans short
  norm_num at normal
  linarith

theorem half_sized {k : ℕ} {x : Float32} {q : ℚ} (sized : Sized k x q) (range : k ≤ 127) :
    Sized k (x / 2) (nearest (q / 2)) :=
  .of_nearest (sized.stands.div stands_two two_ne_zero)
    (by rw [abs_div, abs_two]; linarith [sized.le, abs_nonneg q]) range

theorem half_bounds {q : ℚ} (fits : Fits q) (positive : 0 < q) :
    q / 2 - 2 ^ (-100 : ℤ) ≤ nearest (q / 2) ∧ nearest (q / 2) ≤ q / 2 + 2 ^ (-100 : ℤ) := by
  have unit := two_zpow_pos (-100)
  rcases le_total (2 ^ (-100 : ℤ)) q with normal | tiny
  · rw [nearest_of_fits (fits_half fits normal)]
    constructor <;> linarith
  · have half : q / 2 ≤ 2 ^ (-100 : ℤ) := (half_le_self positive.le).trans tiny
    have above : nearest (q / 2) ≤ 2 ^ (-100 : ℤ) := nearest_le (fits_two_zpow (by norm_num)) half
    exact ⟨(sub_nonpos.2 half).trans (nearest_nonneg (half_pos positive).le),
      above.trans (le_add_of_nonneg_left (half_pos positive).le)⟩

theorem areaOf_lt_leeway {y z : ℚ} (nonneg : 0 ≤ y) (nonneg' : 0 ≤ z) (tiny : y ≤ 2 ^ (-61 : ℤ))
    (small : z ≤ 2 ^ 31) : |areaOf y z| < Triangle.leeway := by
  have product : 2 * y * (2 * z) ≤ 2 ^ (-28 : ℤ) := by
    calc 2 * y * (2 * z) ≤ 2 * 2 ^ (-61 : ℤ) * (2 * 2 ^ 31) :=
          mul_le_mul (by linarith) (by linarith) (by linarith) (by positivity)
      _ = 2 ^ (-28 : ℤ) := by norm_num
  rw [abs_of_nonneg (show 0 ≤ areaOf y z from nearest_nonneg (by positivity))]
  calc areaOf y z ≤ 2 ^ (-28 : ℤ) := nearest_le (fits_two_zpow (by norm_num)) product
    _ < 2 ^ (-24 : ℤ) := by norm_num
    _ ≤ Triangle.leeway := Triangle.leeway_bounds.1

theorem areaOf_halves (h d : ℚ) : areaOf (h / 2) (d / 2) = nearest (h * d) := by
  rw [areaOf, mul_div_cancel₀ h two_ne_zero, mul_div_cancel₀ d two_ne_zero]

theorem thin_of_flat {h d : ℚ} (height_pos : 0 < h / 2) (depth_pos : 0 < d / 2)
    (flat : h / 2 ≤ 2 ^ (-61 : ℤ)) (small : d / 2 ≤ 2 ^ 31) :
    nearest (h * d) < Triangle.leeway ∧
      |areaOf (nearest (h / 2)) (nearest (d / 2))| < Triangle.leeway := by
  constructor
  · rw [← areaOf_halves]
    exact (le_abs_self _).trans_lt (areaOf_lt_leeway height_pos.le depth_pos.le flat small)
  · exact areaOf_lt_leeway (nearest_nonneg height_pos.le) (nearest_nonneg depth_pos.le)
      (nearest_le (fits_two_zpow (by norm_num)) flat) (nearest_le (fits_two_pow 31) small)

namespace Measures
variable {box : Cuboid} {w h d : ℚ}

/-- The area is too small to be told from none, and so it comes out, or the halves are exact. -/
theorem thin_or_roomy (measures : box.Measures w h d) :
    nearest (h * d) < Triangle.leeway ∧
        |areaOf (nearest (h / 2)) (nearest (d / 2))| < Triangle.leeway ∨
      Triangle.leeway ≤ nearest (h * d) ∧ nearest (h / 2) = h / 2 ∧ nearest (d / 2) = d / 2 ∧
        Roomy (h / 2) (d / 2) := by
  have height_pos := half_pos measures.height_pos
  have depth_pos := half_pos measures.depth_pos
  have height_le : h / 2 ≤ 2 ^ 31 := by linarith [(le_abs_self h).trans measures.height.le]
  have depth_le : d / 2 ≤ 2 ^ 31 := by linarith [(le_abs_self d).trans measures.depth.le]
  rcases le_total (h / 2) (2 ^ (-61 : ℤ)) with flat | high
  · exact .inl (thin_of_flat height_pos depth_pos flat depth_le)
  rcases le_total (d / 2) (2 ^ (-61 : ℤ)) with narrow | deep
  · left
    rw [mul_comm h, areaOf_comm (nearest (h / 2))]
    exact thin_of_flat depth_pos height_pos narrow height_le
  have normal : ∀ {q : ℚ}, 2 ^ (-61 : ℤ) ≤ q / 2 → 2 ^ (-100 : ℤ) ≤ q := fun large => by
    norm_num at large ⊢
    linarith
  have height_exact := nearest_of_fits (fits_half measures.height.stands.fits (normal high))
  have depth_exact := nearest_of_fits (fits_half measures.depth.stands.fits (normal deep))
  rcases lt_or_ge (nearest (h * d)) Triangle.leeway with thin | large
  · left
    refine ⟨thin, ?_⟩
    have area_nonneg := nearest_nonneg (mul_pos measures.height_pos measures.depth_pos).le
    rwa [height_exact, depth_exact, areaOf_halves, abs_of_nonneg area_nonneg]
  · exact .inr ⟨large, height_exact, depth_exact, high, deep, height_le, depth_le,
      (areaOf_halves h d).symm ▸ large⟩

end Measures

/-- What a box of ordinary size contains. Away from the rim of its height and depth, and from the
right side, it contains the points inside but for those on the diagonal of the right side, and
points on its left where the ray meets just one of the two diagonals. Boxes whose right side
is too small for the tolerance contain nothing, nor does any box contain what is on its right, or
clearly beyond its height or depth. -/
theorem containsPoint_cases (box : Cuboid) (point : Vec3) {w h d x y z : ℚ}
    (measures : box.Measures w h d) (at_point : point.Sized 32 x y z) :
    (nearest (h * d) < Triangle.leeway → ¬box.toMesh.containsPoint point) ∧
    (w / 2 ≤ x ∨ (1 + 1 / 2 ^ 19) * (h / 2) ≤ |y| ∨ (1 + 1 / 2 ^ 19) * (d / 2) ≤ |z| →
      ¬box.toMesh.containsPoint point) ∧
    (-(w / 2) ≤ x → OnDiagonal h d y (-z) → ¬box.toMesh.containsPoint point) ∧
    (Triangle.leeway ≤ nearest (h * d) →
      |y| ≤ (1 - 1 / 2 ^ 19) * (h / 2) → |z| ≤ (1 - 1 / 2 ^ 19) * (d / 2) →
      (-(w / 2) ≤ x → x ≤ w / 2 - 1 / 2 ^ 22 →
        (box.toMesh.containsPoint point ↔ ¬OnDiagonal h d y (-z))) ∧
      (x ≤ -(w / 2) - 1 / 2 ^ 22 →
        (box.toMesh.containsPoint point ↔ ¬(OnDiagonal h d y (-z) ↔ OnDiagonal h d y z)))) := by
  have halfWidth := half_sized measures.width (by norm_num)
  have halfHeight := half_sized measures.height (by norm_num)
  have halfDepth := half_sized measures.depth (by norm_num)
  have right := across_right halfWidth halfHeight halfDepth
  have left := across_left halfWidth halfHeight halfDepth
  rw [containsPoint_iff halfWidth halfHeight halfDepth]
  rcases measures.thin_or_roomy with ⟨thin, none⟩ | ⟨large, height_exact, depth_exact, roomy⟩
  · have nothing := iff_of_false (Side.not_odd_hits_of_thin right (.inl rfl) at_point none)
      (Side.not_odd_hits_of_thin left (.inr rfl) at_point none)
    exact ⟨fun _ => not_not.2 nothing, fun _ => not_not.2 nothing, fun _ _ => not_not.2 nothing,
      fun large => absurd thin (not_lt.2 large)⟩
  obtain ⟨width_ge, width_le⟩ := half_bounds measures.width.stands.fits measures.width_pos
  have width_pos := measures.width_pos
  rw [height_exact, depth_exact] at right left
  rw [← nearest_neg] at left
  have onRight := Side.counts right (.inl rfl) at_point roomy width_ge
  have onLeft := Side.counts left (.inr rfl) at_point roomy (by rw [nearest_neg]; linarith)
  rw [one_mul] at onRight
  rw [neg_one_mul, neg_neg] at onLeft
  refine ⟨fun thin => absurd thin (not_lt.2 large), ?_, fun past diagonal => ?_,
    fun _ inside_y inside_z => ⟨fun past before => ?_, fun before => ?_⟩⟩
  · rintro (past | outside)
    · exact not_not.2 (iff_of_false (onRight.past past) (onLeft.past (by linarith)))
    · refine not_not.2 (iff_of_false (onRight.outside ?_) (onLeft.outside outside))
      rwa [abs_neg]
  · exact not_not.2 (iff_of_false (onRight.diagonal diagonal) (onLeft.past past))
  · rw [iff_false_right (onLeft.past past), not_not]
    exact onRight.inside inside_y (by rwa [abs_neg]) before
  · rw [onRight.inside inside_y (by rwa [abs_neg]) (by linarith),
      onLeft.inside inside_y inside_z before]
    exact not_congr not_iff_not

theorem measures_cube : (cube 1).Measures 1 1 1 :=
  ⟨.one 32, .one 32, .one 32, one_pos, one_pos, one_pos⟩

theorem stands_quarter : Sized 32 (1 / 4) (1 / 4) := by
  have four : Stands 4 4 := stands_natural (n := 4) (by norm_num)
  have fits : Fits (1 / 4) := ⟨1, -2, by norm_num, by norm_num, by norm_num⟩
  have stands := stands_one.div four (by norm_num) (by norm_num [abs_of_pos])
  rw [nearest_of_fits fits] at stands
  exact ⟨stands, by norm_num [abs_of_pos]⟩

/-- A cube contains a point above its centre and not the centre, and a point far on its left. -/
theorem containsPoint_cube :
    ¬(cube 1).toMesh.containsPoint ⟨0, 0, 0⟩ ∧ (cube 1).toMesh.containsPoint ⟨0, 1 / 4, 0⟩ ∧
      (cube 1).toMesh.containsPoint ⟨-1, 1 / 4, -(1 / 4)⟩ := by
  obtain ⟨-, -, centre, -⟩ := containsPoint_cases (cube 1) ⟨0, 0, 0⟩ measures_cube
    ⟨.zero 32, .zero 32, .zero 32⟩
  obtain ⟨-, -, -, above⟩ := containsPoint_cases (cube 1) ⟨0, 1 / 4, 0⟩ measures_cube
    ⟨.zero 32, stands_quarter, .zero 32⟩
  obtain ⟨-, -, -, far⟩ := containsPoint_cases (cube 1) ⟨-1, 1 / 4, -(1 / 4)⟩ measures_cube
    ⟨(Sized.one 32).neg, stands_quarter, stands_quarter.neg⟩
  have fits_half : Fits (1 / 2) := ⟨1, -1, by norm_num, by norm_num, by norm_num⟩
  have fits_low : Fits (1 / 4) := ⟨1, -2, by norm_num, by norm_num, by norm_num⟩
  have fits_high : Fits (3 / 4) := ⟨3, -2, by norm_num, by norm_num, by norm_num⟩
  have large : Triangle.leeway ≤ nearest (1 * 1) := by
    rw [one_mul, nearest_of_fits (by simpa using fits_two_pow 0)]
    norm_num [Triangle.leeway]
  have middle : ¬OnDiagonal 1 1 (1 / 4) 0 := by
    norm_num [OnDiagonal, nearest_of_fits fits_half, nearest_of_fits fits_high]
  have first : OnDiagonal 1 1 (1 / 4) (1 / 4) := rfl
  have second : ¬OnDiagonal 1 1 (1 / 4) (-(1 / 4)) := by
    norm_num [OnDiagonal, nearest_of_fits fits_low, nearest_of_fits fits_high]
  refine ⟨centre (by norm_num) (by rw [neg_zero]; rfl), ?_, ?_⟩
  · refine ((above large (by norm_num [abs_of_pos]) (by norm_num)).1 (by norm_num) (by norm_num)).2 ?_
    rwa [neg_zero]
  · refine ((far large (by norm_num [abs_of_pos]) (by norm_num [abs_of_pos])).2 (by norm_num)).2 ?_
    rw [neg_neg]
    exact fun both => second (both.1 first)

end Cuboid
end MeshFlow
