import MeshFlow.Mesh.Inside
import MeshFlow.Mesh.Shape.Cuboid
import MeshFlow.Proofs.Converting

set_option autoImplicit false

/-!
# Rays that cross a rectangle

A ray along x meets a rectangle across it at a point that two numbers tell: how far the point is
along each of the two edges, as parts of the area. The rectangle is cut along a diagonal, where the
two numbers are equal. Away from its rim the ray hits the triangle on its side of the diagonal, and
both triangles if the numbers come out equal, however much is rounded on the way.
-/
namespace MeshFlow
open Number Space

namespace Number

/-- The part of a number that is left by a rounding at least. -/
def shrink : ℚ := 1 - 1 / 2 ^ 24

theorem shrink_pos : 0 < shrink := by norm_num [shrink]

theorem shrink_le_one : shrink ≤ 1 := by norm_num [shrink]

/-- Numbers that are apart by so many roundings at most. -/
structure Near (n : ℕ) (q r : ℚ) : Prop where
  le : shrink ^ n * q ≤ r
  ge : shrink ^ n * r ≤ q

namespace Near
variable {m n : ℕ} {q r s c : ℚ}

theorem symm (h : Near n q r) : Near n r q := ⟨h.ge, h.le⟩

theorem trans (h : Near m q r) (h' : Near n r s) : Near (m + n) q s := by
  have pos := pow_pos shrink_pos
  constructor
  · calc shrink ^ (m + n) * q = shrink ^ n * (shrink ^ m * q) := by ring
      _ ≤ shrink ^ n * r := mul_le_mul_of_nonneg_left h.le (pos n).le
      _ ≤ s := h'.le
  · calc shrink ^ (m + n) * s = shrink ^ m * (shrink ^ n * s) := by ring
      _ ≤ shrink ^ m * r := mul_le_mul_of_nonneg_left h'.ge (pos m).le
      _ ≤ q := h.ge

theorem mul_right (h : Near n q r) (nonneg : 0 ≤ c) : Near n (q * c) (r * c) := by
  constructor
  · calc shrink ^ n * (q * c) = shrink ^ n * q * c := by ring
      _ ≤ r * c := mul_le_mul_of_nonneg_right h.le nonneg
  · calc shrink ^ n * (r * c) = shrink ^ n * r * c := by ring
      _ ≤ q * c := mul_le_mul_of_nonneg_right h.ge nonneg

end Near

theorem near_nearest {q : ℚ} (normal : 2 ^ (-126 : ℤ) ≤ q) : Near 1 (nearest q) q := by
  have positive : 0 < q := (two_zpow_pos _).trans_le normal
  have log : -126 ≤ Int.log 2 |q| := by
    rw [abs_of_pos positive, ← Int.zpow_le_iff_le_log (by norm_num) positive]
    exact_mod_cast normal
  have exact : place q = Int.log 2 |q| - 23 := by unfold place; omega
  have begins : (2 : ℚ) ^ Int.log 2 |q| ≤ q := by
    have := Int.zpow_log_le_self (b := 2) (by norm_num) positive
    rw [abs_of_pos positive]
    exact_mod_cast this
  have error := abs_nearest_sub_le q
  have unit : (2 : ℚ) ^ place q / 2 = 2 ^ Int.log 2 |q| / 2 ^ 24 := by
    rw [exact, zpow_sub₀ (by norm_num)]
    norm_num
    ring
  rw [unit, abs_le] at error
  have scaled : (2 : ℚ) ^ Int.log 2 |q| / 2 ^ 24 ≤ q / 2 ^ 24 :=
    div_le_div_of_nonneg_right begins (by norm_num)
  constructor
  · rw [pow_one, shrink]
    have small : nearest q ≤ q + q / 2 ^ 24 := by linarith
    nlinarith
  · rw [pow_one, shrink]
    linarith

theorem nearest_le_add {q : ℚ} (nonneg : 0 ≤ q) : shrink * nearest q ≤ q + 2 ^ (-126 : ℤ) := by
  have least := two_zpow_pos (-126)
  rcases le_total (2 ^ (-126 : ℤ)) q with normal | tiny
  · have near := (near_nearest normal).le
    rw [pow_one] at near
    linarith
  · have small : nearest q ≤ 2 ^ (-126 : ℤ) := nearest_le (fits_two_zpow (by norm_num)) tiny
    have := mul_le_of_le_one_left (nearest_nonneg nonneg) shrink_le_one
    linarith

theorem sub_le_nearest {q : ℚ} (nonneg : 0 ≤ q) : shrink * q - 2 ^ (-126 : ℤ) ≤ nearest q := by
  have least := two_zpow_pos (-126)
  rcases le_total (2 ^ (-126 : ℤ)) q with normal | tiny
  · have near := (near_nearest normal).ge
    rw [pow_one] at near
    linarith
  · have := mul_le_of_le_one_left nonneg shrink_le_one
    have := nearest_nonneg nonneg
    linarith

theorem Fits.gap {q r : ℚ} (first : Fits q) (second : Fits r) (positive : 0 < q) (lt : q < r) :
    q / 2 ^ 24 ≤ r - q := by
  obtain ⟨n, e, small, -, rfl⟩ := first
  obtain ⟨m, f, small', -, rfl⟩ := second
  -- The difference is a multiple of the finer of the two places.
  have multiple : ∀ {g k l : ℤ}, (0 : ℚ) < k * 2 ^ g → |l| ≤ 2 ^ 24 →
      (l : ℚ) * 2 ^ g / 2 ^ 24 ≤ k * 2 ^ g := by
    intro g k l some short
    have power := two_zpow_pos g
    have one : (1 : ℚ) ≤ k := by
      have : 0 < k := by exact_mod_cast pos_of_mul_pos_left some power.le
      exact_mod_cast this
    have : (l : ℚ) ≤ 2 ^ 24 := by exact_mod_cast (le_abs_self l).trans short
    rw [div_le_iff₀ (by norm_num)]
    nlinarith
  rcases le_total e f with finer | finer
  · have difference : (m : ℚ) * 2 ^ f - n * 2 ^ e
        = ((m * (2 ^ (f - e).toNat : ℕ) - n : ℤ) : ℚ) * 2 ^ e := by
      rw [zpow_add_toNat finer]
      push_cast
      ring
    rw [difference]
    exact multiple (difference ▸ sub_pos.2 lt) small
  · have difference : (m : ℚ) * 2 ^ f - n * 2 ^ e
        = ((m - n * (2 ^ (e - f).toNat : ℕ) : ℤ) : ℚ) * 2 ^ f := by
      rw [zpow_add_toNat finer]
      push_cast
      ring
    have larger := multiple (difference ▸ sub_pos.2 lt) small'
    rw [difference]
    exact (div_le_div_of_nonneg_right lt.le (by norm_num)).trans larger

end Number

namespace Crossing

/-- A part of the area, as it is computed: over the area is times its rounded inverse. -/
def part (area q : ℚ) : ℚ := nearest (nearest q * nearest (1 / area))

/-- The two weights of a point are those of a point of the triangle. -/
def Within (u v : ℚ) : Prop := 0 ≤ u ∧ 0 ≤ v ∧ nearest (u + v) ≤ 1

/-- Of the two triangles this is the one where the first number is not above the second. -/
def Hits (area a b : ℚ) : Prop := Within (part area (b - a)) (part area a)

/-- The area is neither so small nor so large that anything gets lost. -/
structure Plain (area : ℚ) : Prop where
  large : 2 ^ (-24 : ℤ) ≤ area
  small : area ≤ 2 ^ (90 : ℤ)

variable {area a b q r : ℚ}

namespace Plain

theorem pos (plain : Plain area) : 0 < area := (two_zpow_pos _).trans_le plain.large

theorem near_inverse (plain : Plain area) : Near 1 (nearest (1 / area)) (1 / area) := by
  apply near_nearest
  rw [le_div_iff₀ plain.pos]
  calc 2 ^ (-126 : ℤ) * area ≤ 2 ^ (-126 : ℤ) * 2 ^ (90 : ℤ) :=
        mul_le_mul_of_nonneg_left plain.small (two_zpow_pos _).le
    _ ≤ 1 := by norm_num

theorem inverse_bounds (plain : Plain area) :
    0 < nearest (1 / area) ∧ shrink ≤ area * nearest (1 / area) ∧
      shrink * (area * nearest (1 / area)) ≤ 1 ∧ nearest (1 / area) ≤ 2 ^ 24 := by
  have positive := plain.pos
  have near := plain.near_inverse
  have le := near.le
  have ge := near.ge
  rw [pow_one] at le ge
  have unit : area * (shrink * (1 / area)) = shrink := by field_simp
  have inverse : area * (1 / area) = 1 := mul_one_div_cancel positive.ne'
  have small : 1 / area ≤ 2 ^ 24 := by
    rw [div_le_iff₀ positive]
    have := plain.large
    norm_num at this ⊢
    linarith
  refine ⟨?_, ?_, ?_, nearest_le (fits_two_pow 24) small⟩
  · exact (mul_pos shrink_pos (one_div_pos.2 positive)).trans_le ge
  · exact unit ▸ mul_le_mul_of_nonneg_left ge positive.le
  · have := mul_le_mul_of_nonneg_left le positive.le
    rw [inverse] at this
    linarith

end Plain

theorem part_mono (plain : Plain area) : Monotone (part area) := fun _ _ le =>
  nearest_mono (mul_le_mul_of_nonneg_right (nearest_mono le) plain.inverse_bounds.1.le)

theorem part_zero (area : ℚ) : part area 0 = 0 := by
  rw [part, nearest_zero, zero_mul, nearest_zero]

theorem part_nonneg (plain : Plain area) (nonneg : 0 ≤ q) : 0 ≤ part area q :=
  part_zero area ▸ part_mono plain nonneg

theorem nearest_part (area q : ℚ) : nearest (part area q) = part area q :=
  nearest_of_fits (fits_nearest _)

theorem part_bounds (plain : Plain area) (nonneg : 0 ≤ q) :
    shrink ^ 3 * (q / area) - 1 / 2 ^ 100 ≤ part area q ∧
      shrink ^ 3 * part area q ≤ q / area + 1 / 2 ^ 100 := by
  obtain ⟨positive, ge, le, small⟩ := plain.inverse_bounds
  have quotient_nonneg : 0 ≤ q / area := div_nonneg nonneg plain.pos.le
  have scaled : q * nearest (1 / area) = q / area * (area * nearest (1 / area)) := by
    field_simp [plain.pos.ne']
  rw [part]
  generalize nearest (1 / area) = inverse at *
  have product := mul_nonneg (nearest_nonneg nonneg) positive.le
  have lost : (2 : ℚ) ^ (-126 : ℤ) * (inverse + 1) ≤ 1 / 2 ^ 100 := by
    norm_num at small ⊢
    linarith
  have least := two_zpow_pos (-126)
  have factor := shrink_pos
  have rounded := sub_le_nearest nonneg
  have rounded' := nearest_le_add nonneg
  have whole := sub_le_nearest product
  have whole' := nearest_le_add product
  generalize q / area = x at *
  generalize area * inverse = y at *
  generalize (2 : ℚ) ^ (-126 : ℤ) = c at *
  have exact : ∀ k, shrink ^ k * (q * inverse) = shrink ^ k * (x * y) := fun k => by rw [scaled]
  have tail := mul_le_of_le_one_left (mul_pos least positive).le shrink_le_one
  constructor
  · have first := mul_le_mul_of_nonneg_left (mul_le_mul_of_nonneg_right rounded positive.le) factor.le
    have second := mul_le_mul_of_nonneg_left (mul_le_mul_of_nonneg_left ge quotient_nonneg)
      (sq_nonneg shrink)
    linarith [exact 2]
  · have first := mul_le_mul_of_nonneg_left (mul_le_mul_of_nonneg_right rounded' positive.le) factor.le
    have second := mul_le_mul_of_nonneg_left whole' (sq_nonneg shrink)
    have third := mul_le_mul_of_nonneg_left le quotient_nonneg
    have tail' := mul_le_of_le_one_left least.le (pow_le_one₀ factor.le shrink_le_one (n := 2))
    linarith [exact 1]

theorem part_neg (area q : ℚ) : part area (-q) = -part area q := by
  rw [part, part, nearest_neg, neg_mul, nearest_neg]

theorem part_lt_zero (plain : Plain area) (below : q ≤ -(area / 2 ^ 60)) : part area q < 0 := by
  have nonneg : 0 ≤ area / 2 ^ 60 := div_nonneg plain.pos.le (by norm_num)
  have lower := (part_bounds plain nonneg).1
  have quotient : area / 2 ^ 60 / area = 1 / 2 ^ 60 := by field_simp [plain.pos.ne']
  rw [quotient] at lower
  have some : (0 : ℚ) < shrink ^ 3 * (1 / 2 ^ 60) - 1 / 2 ^ 100 := by norm_num [shrink]
  have mono := part_mono plain below
  rw [part_neg] at mono
  linarith

theorem within_of_le (plain : Plain area) (nonneg : 0 ≤ q) (nonneg' : 0 ≤ r)
    (le : q + r ≤ (1 - 1 / 2 ^ 21) * area) : Within (part area q) (part area r) := by
  refine ⟨part_nonneg plain nonneg, part_nonneg plain nonneg', ?_⟩
  have first := (part_bounds plain nonneg).2
  have second := (part_bounds plain nonneg').2
  have quotient : q / area + r / area ≤ 1 - 1 / 2 ^ 21 := by
    rw [← add_div, div_le_iff₀ plain.pos]
    exact le
  have bound : part area q + part area r ≤ 1 := by
    have : shrink ^ 3 * (part area q + part area r) ≤ shrink ^ 3 * 1 := by
      norm_num [shrink] at first second quotient ⊢
      linarith
    exact le_of_mul_le_mul_left this (pow_pos shrink_pos 3)
  exact nearest_le (by simpa using fits_two_pow 0) bound

theorem one_lt_of_le (plain : Plain area) (nonneg : 0 ≤ q) (nonneg' : 0 ≤ r)
    (le : (1 + 1 / 2 ^ 21) * area ≤ q + r) : 1 < nearest (part area q + part area r) := by
  have first := (part_bounds plain nonneg).1
  have second := (part_bounds plain nonneg').1
  have quotient : 1 + 1 / 2 ^ 21 ≤ q / area + r / area := by
    rw [← add_div, le_div_iff₀ plain.pos]
    exact le
  have fits : Fits (1 + 1 / 2 ^ 23) := ⟨2 ^ 23 + 1, -23, by norm_num, by norm_num, by norm_num⟩
  have bound : 1 + 1 / 2 ^ 23 ≤ part area q + part area r := by
    norm_num [shrink] at first second quotient ⊢
    linarith
  exact lt_of_lt_of_le (by norm_num) (le_nearest fits bound)

theorem one_lt_part (plain : Plain area) (le : (1 + 1 / 2 ^ 21) * area ≤ q) :
    1 < part area q := by
  have positive := plain.pos
  have nonneg : 0 ≤ q := le_trans (by positivity) le
  have sum := one_lt_of_le plain nonneg le_rfl (by rwa [add_zero])
  rwa [part_zero, add_zero, nearest_part] at sum

theorem Within.symm {u v : ℚ} (h : Within u v) : Within v u := ⟨h.2.1, h.1, add_comm u v ▸ h.2.2⟩

theorem Within.le_one {u v : ℚ} (h : Within u v) (fits : Fits u) : u ≤ 1 :=
  calc u = nearest u := (nearest_of_fits fits).symm
    _ ≤ nearest (u + v) := nearest_mono (by linarith [h.2.1])
    _ ≤ 1 := h.2.2

theorem hits_of_lt (plain : Plain area) (fitsA : Fits a) (fitsB : Fits b)
    (low : area / 2 ^ 21 ≤ a) (lt : a < b) (high : b ≤ (1 - 1 / 2 ^ 21) * area) :
    Hits area a b ∧ ¬Hits area b a := by
  have positive := plain.pos
  have some : 0 < a := (div_pos positive (by norm_num)).trans_le low
  constructor
  · exact within_of_le plain (by linarith) some.le (by linarith)
  · intro hits
    have gap := fitsA.gap fitsB some lt
    have below : a - b ≤ -(area / 2 ^ 60) := by
      norm_num at gap low ⊢
      linarith
    exact absurd hits.1 (not_le.2 (part_lt_zero plain below))

theorem not_hits (plain : Plain area)
    (outside : a ≤ -(area / 2 ^ 21) ∨ (1 + 1 / 2 ^ 21) * area ≤ a) :
    ¬Hits area a b ∧ ¬Hits area b a := by
  have positive := plain.pos
  rcases outside with below | above
  · constructor
    · intro hits
      have := part_lt_zero plain (below.trans (neg_le_neg (div_le_div_of_nonneg_left positive.le
        (by norm_num) (by norm_num))))
      exact absurd hits.2.1 (not_le.2 this)
    · intro hits
      have other : -(area / 2 ^ 60) < b := by
        by_contra far
        exact absurd hits.2.1 (not_le.2 (part_lt_zero plain (not_lt.1 far)))
      have : part area (a - b) < 0 := part_lt_zero plain (by
        norm_num at below other ⊢
        linarith)
      exact absurd hits.1 (not_le.2 this)
  · have large := one_lt_part plain above
    constructor
    · intro hits
      exact absurd (hits.symm.le_one (fits_nearest _)) (not_le.2 large)
    · intro hits
      rcases lt_or_ge b 0 with negative | nonneg
      · have : part area a ≤ part area (a - b) := part_mono plain (by linarith)
        exact absurd (hits.le_one (fits_nearest _)) (not_le.2 (large.trans_le this))
      rcases lt_or_ge a b with less | ge
      · have : part area a ≤ part area b := part_mono plain less.le
        exact absurd (hits.symm.le_one (fits_nearest _)) (not_le.2 (large.trans_le this))
      · exact absurd hits.2.2
          (not_le.2 (one_lt_of_le plain (sub_nonneg.2 ge) nonneg (by linarith)))

end Crossing

namespace Number

/-- A finite float with its number and a bound. -/
structure Sized (k : ℕ) (x : Float32) (q : ℚ) : Prop where
  stands : Stands x q
  le : |q| ≤ 2 ^ k

theorem stands_natural {n : ℕ} (small : n ≤ 2 ^ 24) : Stands (single false n 0) n := by
  have stands := stands_single false (m := n) (e := 0) (by
    rw [zpow_zero, mul_one]
    calc (n : ℚ) ≤ 2 ^ 24 := by exact_mod_cast small
      _ ≤ 2 ^ (127 : ℤ) := by norm_num)
  have value : ((signOf false).apply n : ℚ) * 2 ^ (0 : ℤ) = n := by
    rw [zpow_zero, mul_one]
    exact Int.cast_natCast n
  have fits : Fits (n : ℚ) := by
    simpa using fits_intCast (n := n) (by simpa using (by exact_mod_cast small : (n : ℤ) ≤ 2 ^ 24))
  rwa [value, nearest_of_fits fits] at stands

theorem stands_zero : Stands 0 0 := stands_natural (n := 0) (by norm_num)

theorem stands_one : Stands 1 1 := by
  have stands := stands_natural (n := 1) (by norm_num)
  rw [Nat.cast_one] at stands
  exact stands

theorem stands_two : Stands 2 2 := by
  have stands := stands_natural (n := 2) (by norm_num)
  exact stands

namespace Sized
variable {j k : ℕ} {x y : Float32} {p q : ℚ}

theorem zero (k : ℕ) : Sized k 0 0 := ⟨stands_zero, by rw [abs_zero]; positivity⟩

theorem one (k : ℕ) : Sized k 1 1 := ⟨stands_one, by simpa using one_le_pow₀ (by norm_num)⟩

theorem of_eq (h : Sized k x p) (same : p = q) : Sized k x q := same ▸ h

theorem resize (h : Sized j x p) (le : |p| ≤ 2 ^ k) : Sized k x p := ⟨h.stands, le⟩

theorem mono (h : Sized j x p) (le : j ≤ k) : Sized k x p :=
  h.resize (h.le.trans (pow_le_pow_right₀ (by norm_num) le))

theorem two_pow_le {k : ℕ} (le : k ≤ 127) : (2 : ℚ) ^ k ≤ 2 ^ (127 : ℤ) := by
  rw [← zpow_natCast]
  exact zpow_le_zpow_right₀ (by norm_num) (by exact_mod_cast le)

theorem of_nearest (stands : |q| ≤ 2 ^ (127 : ℤ) → Stands x (nearest q)) (le : |q| ≤ 2 ^ k)
    (range : k ≤ 127) : Sized k x (nearest q) :=
  ⟨stands (le.trans (two_pow_le range)), abs_nearest_le (fits_two_pow k) le⟩

theorem neg (h : Sized k x p) : Sized k (-x) (-p) := ⟨h.stands.neg, by rw [abs_neg]; exact h.le⟩

theorem add (h : Sized k x p) (h' : Sized k y q) (range : k < 127) :
    Sized (k + 1) (x + y) (nearest (p + q)) :=
  of_nearest (h.stands.add h'.stands)
    (calc |p + q| ≤ |p| + |q| := abs_add_le p q
      _ ≤ 2 ^ (k + 1) := by rw [pow_succ]; linarith [h.le, h'.le]) range

theorem sub (h : Sized k x p) (h' : Sized k y q) (range : k < 127) :
    Sized (k + 1) (x - y) (nearest (p - q)) :=
  of_nearest (h.stands.sub h'.stands)
    (calc |p - q| ≤ |p| + |q| := abs_sub p q
      _ ≤ 2 ^ (k + 1) := by rw [pow_succ]; linarith [h.le, h'.le]) range

theorem mul (h : Sized j x p) (h' : Sized k y q) (range : j + k ≤ 127) :
    Sized (j + k) (x * y) (nearest (p * q)) :=
  of_nearest (h.stands.mul h'.stands)
    (by rw [abs_mul, pow_add]; exact mul_le_mul h.le h'.le (abs_nonneg q) (by positivity)) range

end Sized

theorem Fits.two_mul {q : ℚ} (fits : Fits q) : Fits (2 * q) := by
  obtain ⟨n, e, small, least, rfl⟩ := fits
  refine ⟨n, e + 1, small, by omega, ?_⟩
  rw [zpow_add₀ (by norm_num)]
  ring

theorem nearest_nearest (q : ℚ) : nearest (nearest q) = nearest q := nearest_of_fits (fits_nearest q)

end Number

namespace Space

/-- A vector with the numbers of its components and a bound. -/
structure Vec3.Sized (k : ℕ) (v : Vec3) (x y z : ℚ) : Prop where
  x : Number.Sized k v.x x
  y : Number.Sized k v.y y
  z : Number.Sized k v.z z

namespace Vec3.Sized
variable {j k : ℕ} {v w : Vec3} {x y z x' y' z' : ℚ}

theorem sub (h : v.Sized k x y z) (h' : w.Sized k x' y' z') (range : k < 127) :
    (v - w).Sized (k + 1) (nearest (x - x')) (nearest (y - y')) (nearest (z - z')) :=
  ⟨h.x.sub h'.x range, h.y.sub h'.y range, h.z.sub h'.z range⟩

theorem dot (h : v.Sized j x y z) (h' : w.Sized k x' y' z') (range : j + k + 2 ≤ 127) :
    Number.Sized (j + k + 2) (v.dot w)
      (nearest (nearest (nearest (x * x') + nearest (y * y')) + nearest (z * z'))) :=
  ((h.x.mul h'.x (by omega)).add (h.y.mul h'.y (by omega)) (by omega)).add
    ((h.z.mul h'.z (by omega)).mono (by omega)) (by omega)

theorem cross (h : v.Sized j x y z) (h' : w.Sized k x' y' z') (range : j + k + 1 ≤ 127) :
    (v.cross w).Sized (j + k + 1) (nearest (nearest (y * z') - nearest (y' * z)))
      (nearest (nearest (z * x') - nearest (z' * x)))
      (nearest (nearest (x * y') - nearest (x' * y))) := by
  have product : ∀ {a b : Float32} {p q : ℚ}, Number.Sized j a p → Number.Sized k b q →
      Number.Sized (j + k) (a * b) (nearest (p * q)) := fun h h' => h.mul h' (by omega)
  have product' : ∀ {a b : Float32} {p q : ℚ}, Number.Sized k a p → Number.Sized j b q →
      Number.Sized (j + k) (a * b) (nearest (p * q)) := fun h h' =>
    (h.mul h' (by omega)).mono (by omega)
  exact ⟨(product h.y h'.z).sub (product' h'.y h.z) (by omega),
    (product h.z h'.x).sub (product' h'.z h.x) (by omega),
    (product h.x h'.y).sub (product' h'.x h.y) (by omega)⟩

theorem unitX_cross (h : v.Sized k x y z) (range : k + 1 ≤ 127) :
    (unitX.cross v).Sized k 0 (-z) y := by
  have unit : unitX.Sized 0 1 0 0 := ⟨.one 0, .zero 0, .zero 0⟩
  obtain ⟨first, second, third⟩ := unit.cross h (by omega)
  simp only [zero_mul, mul_zero, one_mul, mul_one, nearest_zero, sub_zero, zero_sub,
    nearest_of_fits h.y.stands.fits, nearest_of_fits h.z.stands.fits, nearest_neg] at first second third
  exact ⟨first.resize (by rw [abs_zero]; positivity), second.resize (by rw [abs_neg]; exact h.z.le),
    third.resize h.y.le⟩

theorem unitX_dot (h : v.Sized k x y z) (range : k + 2 ≤ 127) :
    Number.Sized k (unitX.dot v) x := by
  have unit : unitX.Sized 0 1 0 0 := ⟨.one 0, .zero 0, .zero 0⟩
  have product := unit.dot h (by omega)
  simp only [zero_mul, one_mul, nearest_zero, add_zero, nearest_of_fits h.x.stands.fits] at product
  exact product.resize h.x.le

end Vec3.Sized

namespace Triangle

/-- The number of the tolerance, close to a ten-millionth. -/
def leeway : ℚ := 14073749 / 2 ^ 47

theorem leeway_bounds : 2 ^ (-24 : ℤ) ≤ leeway ∧ leeway < 1 / 2 ^ 23 := by
  constructor <;> norm_num [leeway]

theorem stands_tolerance : Stands tolerance leeway := by
  have value : ((signOf false).apply (14073749 : ℕ) : ℚ) * 2 ^ (-47 : ℤ) = leeway := by
    have positive : ((signOf false).apply (14073749 : ℕ) : ℚ) = 14073749 := rfl
    rw [positive, leeway, zpow_neg, ← div_eq_mul_inv]
    rfl
  have fits : Fits leeway := ⟨14073749, -47, by norm_num, by norm_num, by norm_num [leeway]⟩
  have stands := stands_single false (m := 14073749) (e := -47) (by norm_num)
  rw [value, nearest_of_fits fits] at stands
  exact stands

variable (t : Triangle) (origin direction : Vec3) {area across along ahead : ℚ}

theorem rayDistance?_of_lt {k : ℕ}
    (det : Number.Sized k ((t.b - t.a).dot (direction.cross (t.c - t.a))) area)
    (small : |area| < leeway) : t.rayDistance? origin direction = none := by
  have edgeOn := (det.stands.abs.lt_iff stands_tolerance).2 small
  rw [rayDistance?]
  exact if_pos edgeOn

theorem isSome_rayDistance?_iff
    (det : Number.Sized 68 ((t.b - t.a).dot (direction.cross (t.c - t.a))) area)
    (first : Number.Sized 68 ((origin - t.a).dot (direction.cross (t.c - t.a))) across)
    (second : Number.Sized 68 (direction.dot ((origin - t.a).cross (t.b - t.a))) along)
    (third : Number.Sized 102 ((t.c - t.a).dot ((origin - t.a).cross (t.b - t.a))) ahead) :
    (t.rayDistance? origin direction).isSome ↔
      leeway ≤ |area| ∧
        Crossing.Within (nearest (across * nearest (1 / area))) (nearest (along * nearest (1 / area))) ∧
        leeway < nearest (ahead * nearest (1 / area)) := by
  by_cases small : |area| < leeway
  · rw [t.rayDistance?_of_lt origin direction det small]
    simp [not_le.2 small]
  have large := not_lt.1 small
  have nonzero : area ≠ 0 := by
    rintro rfl
    rw [abs_zero] at large
    exact absurd large (not_le.2 (leeway_bounds.1.trans_lt' (two_zpow_pos _)))
  have inverse_small : |1 / area| ≤ 2 ^ 24 := by
    rw [abs_div, abs_one, div_le_iff₀ (abs_pos.2 nonzero)]
    have := leeway_bounds.1.trans large
    norm_num at this ⊢
    linarith
  have inverse : Number.Sized 24 (1 / (t.b - t.a).dot (direction.cross (t.c - t.a)))
      (nearest (1 / area)) :=
    .of_nearest (stands_one.div det.stands nonzero) inverse_small (by norm_num)
  have u := first.mul inverse (by norm_num)
  have v := second.mul inverse (by norm_num)
  have distance := third.mul inverse (by norm_num)
  have sum := u.add v (by norm_num)
  have notEdgeOn : ¬((t.b - t.a).dot (direction.cross (t.c - t.a))).abs < tolerance := fun less =>
    small ((det.stands.abs.lt_iff stands_tolerance).1 less)
  rw [rayDistance?]
  simp only [if_neg notEdgeOn, stands_zero.le_iff u.stands, u.stands.le_iff stands_one,
    v.stands.lt_iff stands_zero, stands_one.lt_iff sum.stands,
    stands_tolerance.lt_iff distance.stands]
  constructor
  · intro hit
    split_ifs at hit with across along near
    · cases hit
    · rw [not_or, not_lt, not_lt] at along
      exact ⟨large, ⟨across.1, along⟩, near⟩
    · cases hit
    · cases hit
  · rintro ⟨-, within, near⟩
    rw [if_pos ⟨within.1, within.le_one (fits_nearest _)⟩,
      if_neg (not_or.2 ⟨not_lt.2 within.2.1, not_lt.2 within.2.2⟩), if_pos near]
    rfl

end Triangle
end Space

namespace Crossing

/-- The corners of a rectangle across x about the axis, in turn from the one at `-y` and `z`. -/
structure Across (side : Cuboid.Side) (x y z : ℚ) : Prop where
  a : side.a.Sized 32 x (-y) z
  b : side.b.Sized 32 x (-y) (-z)
  c : side.c.Sized 32 x y (-z)
  d : side.d.Sized 32 x y z

def areaOf (y z : ℚ) : ℚ := nearest (2 * y * (2 * z))

/-- How far the point is along the one edge, times the length of the other. -/
def reach (y z p : ℚ) : ℚ := nearest (nearest (y + p) * (2 * z))

/-- How far ahead of the point the ray meets the rectangle. -/
def ahead (y z gap : ℚ) : ℚ :=
  nearest (nearest (2 * y * nearest (2 * z * gap)) * nearest (1 / areaOf y z))

section
variable {side : Cuboid.Side} {point : Vec3} {x y z px py pz sign : ℚ}
variable (across : Across side x y (sign * z)) (turned : sign = 1 ∨ sign = -1)
variable (at_point : point.Sized 32 px py pz)

include across in
theorem Across.edges : (side.b - side.a).Sized 33 0 0 (-(sign * (2 * z))) ∧
    (side.c - side.a).Sized 33 0 (2 * y) (-(sign * (2 * z))) ∧
    (side.d - side.a).Sized 33 0 (2 * y) 0 := by
  have first := across.b.sub across.a (by norm_num)
  have second := across.c.sub across.a (by norm_num)
  have third := across.d.sub across.a (by norm_num)
  have depth : nearest (-(sign * z) - sign * z) = -(sign * (2 * z)) := by
    rw [show -(sign * z) - sign * z = -(2 * (sign * z)) by ring, nearest_neg,
      nearest_of_fits across.d.z.stands.fits.two_mul]
    ring
  have height : nearest (y - -y) = 2 * y := by
    rw [show y - -y = 2 * y by ring, nearest_of_fits across.c.y.stands.fits.two_mul]
  rw [sub_self, sub_self, nearest_zero, depth] at first
  rw [sub_self, nearest_zero, height, depth] at second
  rw [sub_self, sub_self, nearest_zero, height] at third
  exact ⟨first, second, third⟩

include across turned at_point

theorem Across.gap : (point - side.a).Sized 33 (-nearest (x - px)) (nearest (y + py))
    (-(sign * nearest (z + -(sign * pz)))) := by
  have gap := at_point.sub across.a (by norm_num)
  have toward : nearest (px - x) = -nearest (x - px) := by rw [← nearest_neg, neg_sub]
  have up : nearest (py - -y) = nearest (y + py) := by rw [sub_neg_eq_add, add_comm]
  have sideways : nearest (pz - sign * z) = -(sign * nearest (z + -(sign * pz))) := by
    rcases turned with rfl | rfl
    · rw [one_mul, one_mul, one_mul, ← nearest_neg]
      congr 1
      ring
    · rw [neg_one_mul, neg_one_mul, neg_one_mul, neg_neg, neg_neg]
      congr 1
      ring
  rwa [toward, up, sideways] at gap

theorem isSome_lower_iff :
    ((Triangle.mk side.a side.b side.c).rayDistance? point .unitX).isSome ↔
      Triangle.leeway ≤ |areaOf y z| ∧ Hits (areaOf y z) (reach y z py) (reach z y (-(sign * pz))) ∧
        Triangle.leeway < ahead y z (nearest (x - px)) := by
  obtain ⟨first, second, -⟩ := across.edges
  have gap := across.gap turned at_point
  have normal := second.unitX_cross (by norm_num)
  have turn := gap.cross first (by norm_num)
  have det := first.dot normal (by norm_num)
  have u := gap.dot normal (by norm_num)
  have v := turn.unitX_dot (by norm_num)
  have distance := second.dot turn (by norm_num)
  refine (Triangle.isSome_rayDistance?_iff ⟨side.a, side.b, side.c⟩ point .unitX det u
    (v.mono (by norm_num)) distance).trans ?_
  unfold Hits part reach ahead areaOf
  generalize nearest (x - px) = toward
  generalize nearest (y + py) = up
  generalize nearest (z + -(sign * pz)) = sideways
  have back : ∀ a b : ℚ, nearest (a + -b) = -nearest (b - a) := fun a b => by
    rw [← nearest_neg, neg_sub, sub_eq_add_neg]
  have forth : ∀ a b : ℚ, nearest (-a + b) = nearest (b - a) := fun a b => by
    rw [neg_add_eq_sub]
  rcases turned with rfl | rfl <;>
    simp only [zero_mul, mul_zero, nearest_zero, zero_add, add_zero, sub_zero, zero_sub, neg_mul,
      mul_neg, neg_neg, neg_zero, nearest_neg, nearest_nearest, one_mul, div_neg, abs_neg, back, forth,
      mul_comm (2 * z) (2 * y)]

theorem isSome_upper_iff :
    ((Triangle.mk side.a side.c side.d).rayDistance? point .unitX).isSome ↔
      Triangle.leeway ≤ |areaOf y z| ∧ Hits (areaOf y z) (reach z y (-(sign * pz))) (reach y z py) ∧
        Triangle.leeway < ahead y z (nearest (x - px)) := by
  obtain ⟨-, first, second⟩ := across.edges
  have gap := across.gap turned at_point
  have normal := second.unitX_cross (by norm_num)
  have turn := gap.cross first (by norm_num)
  have det := first.dot normal (by norm_num)
  have u := gap.dot normal (by norm_num)
  have v := turn.unitX_dot (by norm_num)
  have distance := second.dot turn (by norm_num)
  refine (Triangle.isSome_rayDistance?_iff ⟨side.a, side.c, side.d⟩ point .unitX det u
    (v.mono (by norm_num)) distance).trans ?_
  unfold Hits part reach ahead areaOf
  generalize nearest (x - px) = toward
  generalize nearest (y + py) = up
  generalize nearest (z + -(sign * pz)) = sideways
  have swap : ∀ u v : ℚ, Within u v ↔ Within v u := fun u v => ⟨.symm, .symm⟩
  have back : ∀ a b : ℚ, nearest (-a - -b) = -nearest (a - b) := fun a b => by
    rw [← nearest_neg, neg_sub, sub_neg_eq_add, neg_add_eq_sub]
  rw [swap]
  rcases turned with rfl | rfl <;>
    simp only [zero_mul, mul_zero, nearest_zero, zero_add, add_zero, sub_zero, zero_sub, neg_mul,
      mul_neg, neg_neg, neg_zero, nearest_neg, nearest_nearest, one_mul, div_neg, abs_neg, back,
      mul_comm (2 * z) (2 * y), mul_comm (2 * y) sideways]

end

end Crossing
end MeshFlow
