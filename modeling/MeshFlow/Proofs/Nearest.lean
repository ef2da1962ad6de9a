import Mathlib

set_option autoImplicit false

/-!
# The nearest single-precision number

Single precision over the rationals: the numbers with a significand of 24 bits and a place that is
not below the least. Every rational has a nearest one, with ties going to the even significand;
exponents are not bounded above here. That no such number is nearer gives everything else:
rounding keeps the order, and moves none of the numbers themselves.
-/
namespace MeshFlow.Number

/-- Of two integers that are equally near it is the even one. -/
def nearestInt (q : ℚ) : ℤ :=
  if Int.fract q < 1 / 2 ∨ Int.fract q = 1 / 2 ∧ Even ⌊q⌋ then ⌊q⌋ else ⌊q⌋ + 1

theorem abs_nearestInt_sub_le (q : ℚ) : |nearestInt q - q| ≤ 1 / 2 := by
  have split := Int.floor_add_fract q
  have nonneg := Int.fract_nonneg q
  have lt := Int.fract_lt_one q
  unfold nearestInt
  split_ifs with below
  · have : Int.fract q ≤ 1 / 2 := below.elim le_of_lt fun tie => tie.1.le
    rw [abs_le]
    constructor <;> linarith
  · have : 1 / 2 ≤ Int.fract q := le_of_not_gt fun less => below (.inl less)
    push_cast
    rw [abs_le]
    constructor <;> linarith

theorem nearestInt_intCast (n : ℤ) : nearestInt n = n := by
  rw [nearestInt, Int.fract_intCast, Int.floor_intCast, if_pos (.inl (by norm_num))]

theorem abs_nearestInt_sub_le_abs (q : ℚ) (n : ℤ) : |nearestInt q - q| ≤ |n - q| := by
  by_cases same : n = nearestInt q
  · rw [same]
  · have half := abs_nearestInt_sub_le q
    have apart : (1 : ℚ) ≤ |(n : ℚ) - nearestInt q| := by
      exact_mod_cast Int.one_le_abs (sub_ne_zero.2 same)
    have := abs_sub_le (n : ℚ) q (nearestInt q)
    rw [abs_sub_comm q] at this
    linarith

/-- An integer at which the distance is below one half, or one half and it is even, is the nearest. -/
theorem nearestInt_eq {q : ℚ} {n : ℤ} (near : |n - q| < 1 / 2 ∨ |n - q| = 1 / 2 ∧ Even n) :
    nearestInt q = n := by
  have split := Int.floor_add_fract q
  have nonneg := Int.fract_nonneg q
  have lt := Int.fract_lt_one q
  have bounds : -(1 / 2) ≤ n - q ∧ n - q ≤ 1 / 2 :=
    abs_le.1 (near.elim le_of_lt fun tie => tie.1.le)
  have floorLe : ⌊q⌋ ≤ n := by
    have : (⌊q⌋ : ℚ) < n + 1 := by linarith
    exact Int.lt_add_one_iff.1 (by exact_mod_cast this)
  have leNext : n ≤ ⌊q⌋ + 1 := by
    have : (n : ℚ) < ⌊q⌋ + 2 := by linarith
    have : n < ⌊q⌋ + 2 := by exact_mod_cast this
    omega
  unfold nearestInt
  rcases eq_or_lt_of_le floorLe with same | above
  · have : q - n = Int.fract q := by rw [← same]; linarith
    rw [abs_sub_comm, this, abs_of_nonneg nonneg, ← same] at near
    rw [if_pos near, same]
  · have next : n = ⌊q⌋ + 1 := by omega
    have distance : (n : ℚ) - q = 1 - Int.fract q := by rw [next]; push_cast; linarith
    rw [distance, abs_of_pos (by linarith), next] at near
    rw [if_neg, next]
    rintro (below | ⟨tie, even⟩)
    · rcases near with near | near <;> linarith [near]
    · rcases near with near | near
      · linarith
      · have := near.2
        grind

theorem nearestInt_cases (q : ℚ) : |nearestInt q - q| < 1 / 2 ∨
    |nearestInt q - q| = 1 / 2 ∧ Even (nearestInt q) := by
  have split := Int.floor_add_fract q
  have nonneg := Int.fract_nonneg q
  have lt := Int.fract_lt_one q
  unfold nearestInt
  split_ifs with below
  · have : (⌊q⌋ : ℚ) - q = -Int.fract q := by linarith
    rwa [this, abs_neg, abs_of_nonneg nonneg]
  · have : ((⌊q⌋ + 1 : ℤ) : ℚ) - q = 1 - Int.fract q := by push_cast; linarith
    rw [this, abs_of_pos (by linarith)]
    by_cases tie : Int.fract q = 1 / 2
    · refine .inr ⟨by linarith, ?_⟩
      have odd : ¬Even ⌊q⌋ := fun even => below (.inr ⟨tie, even⟩)
      exact Int.even_add_one.2 odd
    · left
      have : 1 / 2 < Int.fract q :=
        lt_of_le_of_ne (le_of_not_gt fun less => below (.inl less)) (Ne.symm tie)
      linarith

theorem nearestInt_neg (q : ℚ) : nearestInt (-q) = -nearestInt q := by
  apply nearestInt_eq
  have mirrored : (((-nearestInt q : ℤ) : ℚ) - -q) = -(nearestInt q - q) := by push_cast; ring
  rw [mirrored, abs_neg, even_neg]
  exact nearestInt_cases q

/-- An integer of at most 24 bits at a place that is not below the least; one more may round up to. -/
def Fits (x : ℚ) : Prop := ∃ n e : ℤ, |n| ≤ 2 ^ 24 ∧ -149 ≤ e ∧ x = n * 2 ^ e

/-- The place of the last bit that numbers near `q` have. -/
def place (q : ℚ) : ℤ := max (Int.log 2 |q| - 23) (-149)

def nearest (q : ℚ) : ℚ := nearestInt (q / 2 ^ place q) * 2 ^ place q

theorem place_neg (q : ℚ) : place (-q) = place q := by rw [place, place, abs_neg]

theorem nearest_neg (q : ℚ) : nearest (-q) = -nearest q := by
  rw [nearest, nearest, place_neg, neg_div, nearestInt_neg]
  push_cast
  ring

theorem Fits.neg {x : ℚ} (fits : Fits x) : Fits (-x) := by
  obtain ⟨n, e, small, least, rfl⟩ := fits
  exact ⟨-n, e, by rwa [abs_neg], least, by push_cast; ring⟩

theorem two_zpow_pos (e : ℤ) : (0 : ℚ) < 2 ^ e := zpow_pos (by norm_num) e

theorem abs_lt_place (q : ℚ) : |q| < 2 ^ (place q + 24) := by
  calc |q| < ((2 : ℕ) : ℚ) ^ (Int.log 2 |q| + 1) := Int.lt_zpow_succ_log_self (by norm_num) _
    _ ≤ 2 ^ (place q + 24) := by
      push_cast
      apply zpow_le_zpow_right₀ (by norm_num)
      have := le_max_left (Int.log 2 |q| - 23) (-149)
      unfold place
      omega

theorem zpow_le_abs {q : ℚ} (nonzero : q ≠ 0) (above : -149 < place q) :
    (2 : ℚ) ^ (place q + 23) ≤ |q| := by
  have exact : place q + 23 = Int.log 2 |q| := by unfold place at above ⊢; omega
  rw [exact]
  exact_mod_cast Int.zpow_log_le_self (by norm_num) (abs_pos.2 nonzero)

theorem abs_nearest_sub_le (q : ℚ) : |nearest q - q| ≤ 2 ^ place q / 2 := by
  have positive := two_zpow_pos (place q)
  have scaled : nearest q - q = (nearestInt (q / 2 ^ place q) - q / 2 ^ place q) * 2 ^ place q := by
    rw [nearest]
    field_simp
  rw [scaled, abs_mul, abs_of_pos positive]
  have := abs_nearestInt_sub_le (q / 2 ^ place q)
  nlinarith

theorem abs_nearest_sub_le_multiple (q : ℚ) (n : ℤ) :
    |nearest q - q| ≤ |n * 2 ^ place q - q| := by
  have positive := two_zpow_pos (place q)
  have scaled : ∀ k : ℤ, (k : ℚ) * 2 ^ place q - q = (k - q / 2 ^ place q) * 2 ^ place q := by
    intro k
    field_simp
  rw [nearest, scaled, scaled, abs_mul, abs_mul]
  exact mul_le_mul_of_nonneg_right (abs_nearestInt_sub_le_abs _ n) (abs_nonneg _)

theorem zpow_add_toNat {a b : ℤ} (le : a ≤ b) : (2 : ℚ) ^ b = (2 ^ (b - a).toNat : ℕ) * 2 ^ a := by
  have natural : ((b - a).toNat : ℤ) = b - a := Int.toNat_of_nonneg (by omega)
  push_cast
  rw [← zpow_natCast, natural, ← zpow_add₀ (by norm_num)]
  congr 1
  omega

theorem abs_nearest_sub_le_of_pos {q x : ℚ} (positive : 0 < q) (fits : Fits x) :
    |nearest q - q| ≤ |x - q| := by
  obtain ⟨n, e, small, least, rfl⟩ := fits
  by_cases coarse : place q ≤ e
  · rw [zpow_add_toNat coarse]
    have multiple := abs_nearest_sub_le_multiple q (n * (2 ^ (e - place q).toNat : ℕ))
    rwa [Int.cast_mul, Int.cast_natCast, mul_assoc] at multiple
  -- A finer number is at most the power of two that begins the binade of `q`.
  · have begins := zpow_le_abs positive.ne' (by omega)
    rw [abs_of_pos positive] at begins
    have power : (2 : ℚ) ^ (place q + 23) = ((2 ^ 23 : ℤ) : ℚ) * 2 ^ place q := by
      rw [zpow_add₀ (by norm_num), mul_comm]
      norm_cast
    have finer : (n : ℚ) * 2 ^ e ≤ 2 ^ (place q + 23) := by
      calc (n : ℚ) * 2 ^ e ≤ 2 ^ (24 : ℤ) * 2 ^ e := by
            apply mul_le_mul_of_nonneg_right _ (two_zpow_pos e).le
            exact_mod_cast (le_abs_self n).trans small
        _ = 2 ^ (24 + e) := (zpow_add₀ (by norm_num) _ _).symm
        _ ≤ 2 ^ (place q + 23) := zpow_le_zpow_right₀ (by norm_num) (by omega)
    calc |nearest q - q| ≤ |((2 ^ 23 : ℤ) : ℚ) * 2 ^ place q - q| :=
          abs_nearest_sub_le_multiple q _
      _ = q - 2 ^ (place q + 23) := by
          rw [← power, abs_sub_comm, abs_of_nonneg (by linarith)]
      _ ≤ q - n * 2 ^ e := by linarith
      _ ≤ |n * 2 ^ e - q| := by
          rw [abs_sub_comm]
          exact le_abs_self _

theorem abs_nearest_sub_le_abs (q : ℚ) {x : ℚ} (fits : Fits x) : |nearest q - q| ≤ |x - q| := by
  rcases lt_trichotomy 0 q with positive | rfl | negative
  · exact abs_nearest_sub_le_of_pos positive fits
  · have zero : nearest 0 = 0 := by rw [nearest, zero_div]; simp [nearestInt]
    rw [zero, sub_self, abs_zero]
    exact abs_nonneg _
  · have mirrored := abs_nearest_sub_le_of_pos (q := -q) (by linarith) fits.neg
    rw [nearest_neg, ← neg_sub', ← neg_sub', abs_neg, abs_neg] at mirrored
    exact mirrored

theorem abs_nearestInt_le (q : ℚ) : |nearestInt (q / 2 ^ place q)| ≤ 2 ^ 24 := by
  have positive := two_zpow_pos (place q)
  have below := abs_lt_place q
  have scaled : |q / 2 ^ place q| < 2 ^ 24 := by
    rw [abs_div, abs_of_pos positive, div_lt_iff₀ positive, mul_comm]
    rwa [zpow_add₀ (by norm_num)] at below
  have half := abs_nearestInt_sub_le (q / 2 ^ place q)
  have : |(nearestInt (q / 2 ^ place q) : ℚ)| < 2 ^ 24 + 1 := by
    have := abs_sub_abs_le_abs_sub (nearestInt (q / 2 ^ place q) : ℚ) (q / 2 ^ place q)
    linarith
  exact Int.lt_add_one_iff.1 (by exact_mod_cast this)

theorem fits_nearest (q : ℚ) : Fits (nearest q) :=
  ⟨nearestInt (q / 2 ^ place q), place q, abs_nearestInt_le q, le_max_right _ _, rfl⟩

theorem nearest_of_fits {x : ℚ} (fits : Fits x) : nearest x = x := by
  have nearer := abs_nearest_sub_le_abs x fits
  rw [sub_self, abs_zero] at nearer
  exact sub_eq_zero.1 (abs_eq_zero.1 (le_antisymm nearer (abs_nonneg _)))

theorem nearest_eq_self_iff (x : ℚ) : nearest x = x ↔ Fits x :=
  ⟨fun same => same ▸ fits_nearest x, nearest_of_fits⟩

/-- Rounding keeps the order: were the order turned, each of two numbers would be nearer to the
nearest of the other. -/
theorem nearest_mono : Monotone nearest := by
  intro q r le
  rcases eq_or_lt_of_le le with rfl | lt
  · exact le_rfl
  · by_contra turned
    have first := abs_nearest_sub_le_abs q (fits_nearest r)
    have second := abs_nearest_sub_le_abs r (fits_nearest q)
    rw [not_le] at turned
    rcases abs_cases (nearest q - q) with ⟨h₁, _⟩ | ⟨h₁, _⟩ <;>
    rcases abs_cases (nearest r - q) with ⟨h₂, _⟩ | ⟨h₂, _⟩ <;>
    rcases abs_cases (nearest r - r) with ⟨h₃, _⟩ | ⟨h₃, _⟩ <;>
    rcases abs_cases (nearest q - r) with ⟨h₄, _⟩ | ⟨h₄, _⟩ <;>
    linarith

theorem nearest_le {q x : ℚ} (fits : Fits x) (le : q ≤ x) : nearest q ≤ x :=
  (nearest_mono le).trans_eq (nearest_of_fits fits)

theorem le_nearest {q x : ℚ} (fits : Fits x) (le : x ≤ q) : x ≤ nearest q :=
  (nearest_of_fits fits).symm.trans_le (nearest_mono le)

theorem fits_intCast {n : ℤ} (small : |n| ≤ 2 ^ 24) : Fits n :=
  ⟨n, 0, small, by norm_num, by simp⟩

theorem fits_zero : Fits 0 := by simpa using fits_intCast (n := 0) (by norm_num)

theorem nearest_zero : nearest 0 = 0 := nearest_of_fits fits_zero

theorem fits_two_zpow {e : ℤ} (least : -149 ≤ e) : Fits (2 ^ e) :=
  ⟨1, e, by norm_num, least, by simp⟩

theorem fits_two_pow (k : ℕ) : Fits (2 ^ k) := by
  have fits := fits_two_zpow (e := k) (by omega)
  rwa [zpow_natCast] at fits

theorem nearest_nonneg {q : ℚ} (nonneg : 0 ≤ q) : 0 ≤ nearest q := le_nearest fits_zero nonneg

theorem nearest_nonpos {q : ℚ} (nonpos : q ≤ 0) : nearest q ≤ 0 := nearest_le fits_zero nonpos

theorem abs_nearest (q : ℚ) : |nearest q| = nearest |q| := by
  rcases le_total 0 q with nonneg | nonpos
  · rw [abs_of_nonneg nonneg, abs_of_nonneg (nearest_nonneg nonneg)]
  · rw [abs_of_nonpos nonpos, abs_of_nonpos (nearest_nonpos nonpos), nearest_neg]

theorem abs_nearest_le {q b : ℚ} (fits : Fits b) (le : |q| ≤ b) : |nearest q| ≤ b := by
  rw [abs_nearest]
  exact nearest_le fits le

end MeshFlow.Number
