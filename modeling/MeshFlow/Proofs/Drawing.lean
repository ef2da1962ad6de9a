import MeshFlow.Proofs.Integers

set_option autoImplicit false

/-!
# Random integers

A random integer is the floor of a float between the ends of its range. Everything on the way is
rounded: the ends, their difference, its product with the draw, and the sum. All of this keeps the
order, so the smallest and the largest draw tell whether every draw stays inside; and for ends of at
most 23 bits a power of two that is not below the length of the range, but below its upper end,
tells that the upper end itself can come out.
-/
namespace MeshFlow
open Number

namespace Block

/-- The integer that a draw of `k / 2 ^ 24` gives between two integers. -/
def drawnInt (low high : Int32) (k : Nat) : Int32 :=
  toInt32 (between .int (ofInt low.toInt) (ofInt high.toInt) (single false k (-24)))

/-- The number between two numbers that is floored, for the fraction `t` of the way. -/
def along (low high : ℤ) (t : ℚ) : ℚ :=
  nearest (nearest low + nearest (nearest (nearest high - nearest low) * t))

/-- Both the smallest and the largest draw stay in the range. -/
def StaysIn (low high : ℤ) : Prop :=
  low ≤ nearest low ∧ along low high (1 - 1 / 2 ^ 24) < high

section
variable {low high : Int32}

theorem stands_unit {k : ℕ} (draw : k < 2 ^ 24) : Stands (single false k (-24)) (k / 2 ^ 24) := by
  have scaled : (k : ℚ) * 2 ^ (-24 : ℤ) = k / 2 ^ 24 := by
    rw [zpow_neg, ← div_eq_mul_inv]
    rfl
  have below : (k : ℚ) / 2 ^ 24 ≤ 1 := by
    rw [div_le_one (by norm_num)]
    exact_mod_cast draw.le
  have fits : Fits ((k : ℚ) / 2 ^ 24) := by
    refine ⟨k, -24, ?_, by norm_num, scaled.symm⟩
    rw [Nat.abs_cast]
    exact_mod_cast draw.le
  have small : (k : ℚ) * 2 ^ (-24 : ℤ) ≤ 2 ^ (127 : ℤ) := by
    rw [scaled]
    exact below.trans (one_le_zpow₀ (by norm_num) (by norm_num))
  have stands := stands_single false small
  have positive : ((signOf false).apply k : ℚ) = k := Int.cast_natCast k
  rwa [positive, scaled, nearest_of_fits fits] at stands

theorem toInt_drawnInt {k : ℕ} (draw : k < 2 ^ 24) :
    (drawnInt low high k).toInt = held ⌊along low.toInt high.toInt (k / 2 ^ 24)⌋ := by
  have lowEnd := abs_le.1 (abs_nearest_toInt_le low)
  have highEnd := abs_le.1 (abs_nearest_toInt_le high)
  have fits : Fits (2 ^ (32 : ℤ)) := fits_two_zpow (by norm_num)
  have lengthSmall : |nearest (high.toInt : ℚ) - nearest low.toInt| ≤ 2 ^ (32 : ℤ) := by
    norm_num at lowEnd highEnd ⊢
    rw [abs_le]
    constructor <;> linarith
  have length := (stands_toInt high).sub (stands_toInt low) (lengthSmall.trans
    (zpow_le_zpow_right₀ (by norm_num) (by norm_num)))
  have lengthRounded : |nearest (nearest (high.toInt : ℚ) - nearest low.toInt)| ≤ 2 ^ (32 : ℤ) :=
    abs_nearest_le fits lengthSmall
  have unit : |(k : ℚ) / 2 ^ 24| ≤ 1 := by
    rw [abs_of_nonneg (by positivity), div_le_one (by norm_num)]
    exact_mod_cast draw.le
  have partSmall : |nearest (nearest (high.toInt : ℚ) - nearest low.toInt) * (k / 2 ^ 24)|
      ≤ 2 ^ (32 : ℤ) := by
    rw [abs_mul]
    exact (mul_le_of_le_one_right (abs_nonneg _) unit).trans lengthRounded
  have part := length.mul (stands_unit draw) (partSmall.trans
    (zpow_le_zpow_right₀ (by norm_num) (by norm_num)))
  have partRounded : |nearest (nearest (nearest (high.toInt : ℚ) - nearest low.toInt)
      * (k / 2 ^ 24))| ≤ 2 ^ (32 : ℤ) := abs_nearest_le fits partSmall
  have sum := (stands_toInt low).add part (by
    have bound := abs_le.1 partRounded
    norm_num at lowEnd bound ⊢
    rw [abs_le]
    constructor <;> linarith)
  exact sum.floor.toInt32

theorem along_mono {low high : ℤ} (le : low ≤ high) : Monotone (along low high) := by
  intro t u less
  have length : 0 ≤ nearest (nearest (high : ℚ) - nearest low) :=
    nearest_nonneg (sub_nonneg.2 (nearest_mono (by exact_mod_cast le)))
  apply nearest_mono
  have := nearest_mono (mul_le_mul_of_nonneg_left less length)
  linarith

theorem along_zero (low high : ℤ) : along low high 0 = nearest low := by
  rw [along, mul_zero, nearest_zero, add_zero, nearest_of_fits (fits_nearest _)]

theorem held_mono {m n : ℤ} (le : m ≤ n) : held m ≤ held n := by
  rw [held, held, truncate_intCast, truncate_intCast]
  omega

theorem drawnInt_mem_iff (lt : low < high) :
    (∀ k < 2 ^ 24, low ≤ drawnInt low high k ∧ drawnInt low high k < high) ↔
      StaysIn low.toInt high.toInt := by
  have lt' : low.toInt < high.toInt := Int32.lt_iff_toInt_lt.1 lt
  have lowBound := low.le_toInt
  have highBound := high.toInt_lt
  have smallest : low.toInt ≤ held ⌊along low.toInt high.toInt 0⌋ ↔
      (low.toInt : ℚ) ≤ nearest low.toInt := by
    obtain ⟨n, whole⟩ := exists_nearest_intCast low.toInt
    have bound := abs_nearest_toInt_le low
    rw [whole] at bound
    have inRange : -2 ^ 31 ≤ n := (abs_le.1 (by exact_mod_cast bound)).1
    rw [along_zero, whole, held, Int.floor_intCast, truncate_intCast, Int.cast_le]
    omega
  have largest : ∀ q : ℚ, held ⌊q⌋ < high.toInt ↔ q < high.toInt := by
    intro q
    rw [← Int.floor_lt, held, truncate_intCast]
    omega
  have mono := along_mono lt'.le
  simp only [Int32.le_iff_toInt_le, Int32.lt_iff_toInt_lt, StaysIn]
  rw [← smallest]
  constructor
  · intro stays
    have first := (stays 0 (by norm_num)).1
    have last := (stays (2 ^ 24 - 1) (by norm_num)).2
    rw [toInt_drawnInt (by norm_num)] at first last
    rw [largest] at last
    refine ⟨by simpa using first, ?_⟩
    norm_num at last ⊢
    exact last
  · rintro ⟨first, last⟩ k draw
    have nonneg : (0 : ℚ) ≤ k / 2 ^ 24 := by positivity
    have below : (k : ℚ) / 2 ^ 24 ≤ 1 - 1 / 2 ^ 24 := by
      have : k + 1 ≤ 2 ^ 24 := draw
      have : (k : ℚ) + 1 ≤ 2 ^ 24 := by exact_mod_cast this
      norm_num at this ⊢
      linarith
    rw [toInt_drawnInt draw]
    exact ⟨first.trans (held_mono (Int.floor_mono (mono nonneg))),
      (largest _).2 ((mono below).trans_lt last)⟩

end

end Block

namespace Number

theorem pow_mul_zpow {a : ℕ} {b : ℤ} (opposite : a + b = 0) : (2 : ℚ) ^ a * 2 ^ b = 1 := by
  rw [← zpow_natCast, ← zpow_add₀ (by norm_num), opposite, zpow_zero]

theorem natCast_eq_mul_zpow (n : ℕ) {a : ℕ} {b : ℤ} (opposite : a + b = 0) :
    (n : ℚ) = ((n * 2 ^ a : ℕ) : ℤ) * 2 ^ b := by
  push_cast
  rw [mul_assoc, pow_mul_zpow opposite, mul_one]

/-- Half of the last place on either side of an integer is a tie, which goes to the integer. -/
theorem nearest_beside {h i : ℕ} {d : ℚ} (half : |d| = 2 ^ (i - 24 : ℤ)) (short : h ≤ 2 ^ 23)
    (low : 2 ^ i ≤ h + d) (high : h + d < 2 ^ (i + 1)) (least : i ≤ 23) : nearest (h + d) = h := by
  have positive : 0 < (h : ℚ) + d := lt_of_lt_of_le (by positivity) low
  have scale := two_zpow_pos (i - 23 : ℤ)
  have placed : place ((h : ℚ) + d) = i - 23 := by
    apply place_eq (by omega)
    · rw [abs_of_pos positive, sub_add_cancel, zpow_natCast]
      exact low
    · have next : (i : ℤ) - 23 + 24 = (i + 1 : ℕ) := by push_cast; ring
      rw [abs_of_pos positive, next, zpow_natCast]
      exact high
  have unit : (2 : ℚ) ^ (i - 23 : ℤ) = 2 * 2 ^ (i - 24 : ℤ) := by
    rw [← zpow_one_add₀ (by norm_num)]
    congr 1
    ring
  have whole := natCast_eq_mul_zpow h (show (23 - i : ℕ) + (i - 23 : ℤ) = 0 by omega)
  have even : Even ((h * 2 ^ (23 - i) : ℕ) : ℤ) := by
    rcases eq_or_lt_of_le least with rfl | below
    · -- The significand has no bit to spare, and the integer is the power of two itself.
      have upper : d ≤ 1 / 2 := (le_abs_self d).trans_eq (half.trans (by norm_num))
      have above : (2 : ℚ) ^ 23 < h + 1 := by linarith
      have : 2 ^ 23 < h + 1 := by exact_mod_cast above
      obtain rfl : h = 2 ^ 23 := by omega
      exact_mod_cast Nat.even_iff.2 (by norm_num)
    · have factor : 2 ∣ 2 ^ (23 - i) := dvd_pow_self 2 (by omega)
      exact_mod_cast (even_iff_two_dvd.2 factor).mul_left h
  have rounded : nearestInt ((h + d) / 2 ^ (i - 23 : ℤ)) = ((h * 2 ^ (23 - i) : ℕ) : ℤ) := by
    refine nearestInt_eq (.inr ⟨?_, even⟩)
    rw [add_div, (div_eq_iff scale.ne').2 whole, sub_add_cancel_left, abs_neg, abs_div, half,
      abs_of_pos scale, unit]
    field_simp
  rw [nearest, placed, rounded, ← whole]

theorem zpow_sub_natCast (j : ℕ) : (2 : ℚ) ^ (j - 24 : ℤ) = 2 ^ j / 2 ^ 24 := by
  rw [zpow_sub₀ (by norm_num), zpow_natCast]
  rfl

theorem place_largest_draw {w j : ℕ} (short : w ≤ 2 ^ 24) (below : w ≤ 2 ^ j)
    (above : 2 ^ j < 2 * w) : place ((w : ℚ) * (1 - 1 / 2 ^ 24)) = j - 24 := by
  have upper : (w : ℚ) ≤ 2 ^ j := by exact_mod_cast below
  have lower : (2 : ℚ) ^ j < 2 * w := by exact_mod_cast above
  have some : (0 : ℚ) < 2 ^ j := by positivity
  have half : (2 : ℚ) ^ j ≤ 2 * (w * (1 - 1 / 2 ^ 24)) := by
    rcases Nat.eq_zero_or_pos j with rfl | more
    · obtain rfl : w = 1 := by omega
      norm_num
    · have even : 2 ∣ 2 ^ j := dvd_pow_self 2 (by omega)
      have : 2 ^ j + 2 ≤ 2 * w := by omega
      have : (2 : ℚ) ^ j + 2 ≤ 2 * w := by exact_mod_cast this
      have : (w : ℚ) ≤ 2 ^ 24 := by exact_mod_cast short
      linarith
  have positive : (0 : ℚ) < w * (1 - 1 / 2 ^ 24) := by linarith
  apply place_eq (by omega)
  · have before : (j : ℤ) - 24 + 23 = j - 1 := by ring
    rw [abs_of_pos positive, before, zpow_sub_one₀ (by norm_num), zpow_natCast]
    linarith
  · rw [abs_of_pos positive, sub_add_cancel, zpow_natCast]
    linarith

/-- What the largest draw leaves of a length: all but its last place. -/
theorem nearest_largest_draw {w j : ℕ} (short : w ≤ 2 ^ 24) (below : w ≤ 2 ^ j)
    (above : 2 ^ j < 2 * w) : nearest (w * (1 - 1 / 2 ^ 24)) = w - 2 ^ (j - 24 : ℤ) := by
  have least : j ≤ 24 := by
    by_contra long
    have : 2 ^ 25 ≤ 2 ^ j := Nat.pow_le_pow_right (by norm_num) (by omega)
    omega
  have scale := two_zpow_pos (j - 24 : ℤ)
  have upper : (w : ℚ) ≤ 2 ^ j := by exact_mod_cast below
  have lower : (2 : ℚ) ^ j < 2 * w := by exact_mod_cast above
  have whole := natCast_eq_mul_zpow w (show (24 - j : ℕ) + (j - 24 : ℤ) = 0 by omega)
  have rounded : nearestInt (w * (1 - 1 / 2 ^ 24) / 2 ^ (j - 24 : ℤ))
      = ((w * 2 ^ (24 - j) : ℕ) : ℤ) - 1 := by
    have share : (w : ℚ) * (1 - 1 / 2 ^ 24) / 2 ^ (j - 24 : ℤ)
        = ((w * 2 ^ (24 - j) : ℕ) : ℤ) - w / 2 ^ j := by
      rw [mul_sub, mul_one, sub_div, (div_eq_iff scale.ne').2 whole, zpow_sub_natCast]
      field_simp
    refine nearestInt_eq (.inl ?_)
    have part : (w : ℚ) / 2 ^ j ≤ 1 := (div_le_one (by positivity)).2 upper
    have more : 1 / 2 < (w : ℚ) / 2 ^ j := by
      rw [div_lt_div_iff₀ (by norm_num) (by positivity)]
      linarith
    rw [share, Int.cast_sub, Int.cast_one, abs_lt]
    constructor <;> linarith
  rw [nearest, place_largest_draw short below above, rounded, Int.cast_sub, sub_mul, ← whole,
    Int.cast_one, one_mul]

theorem le_nearest_sub {n j : ℕ} (short : n ≤ 2 ^ 23) (beyond : 2 ^ j < n) :
    (n : ℚ) ≤ nearest (n - 2 ^ (j - 24 : ℤ)) := by
  have some := Nat.two_pow_pos j
  have begins := Nat.log2_self_le (n := n - 1) (by omega)
  have ends := Nat.lt_log2_self (n := n - 1)
  have le : j ≤ (n - 1).log2 := (Nat.le_log2 (by omega)).2 (by omega)
  have least : (n - 1).log2 < 23 := (Nat.log2_lt (by omega)).2 (by omega)
  have power : (2 : ℚ) ^ ((n - 1).log2 - 24 : ℤ) ≤ 1 := zpow_le_one_of_nonpos₀ (by norm_num) (by omega)
  have beside : nearest (n + -2 ^ ((n - 1).log2 - 24 : ℤ)) = n := by
    refine nearest_beside (i := (n - 1).log2) ?_ short ?_ ?_ least.le
    · rw [abs_neg, abs_of_pos (two_zpow_pos _)]
    · have : 2 ^ (n - 1).log2 + 1 ≤ n := by omega
      have : (2 : ℚ) ^ (n - 1).log2 + 1 ≤ n := by exact_mod_cast this
      linarith
    · have : n ≤ 2 ^ ((n - 1).log2 + 1) := by omega
      have : (n : ℚ) ≤ 2 ^ ((n - 1).log2 + 1) := by exact_mod_cast this
      have := two_zpow_pos ((n - 1).log2 - 24 : ℤ)
      linarith
  have wider : (2 : ℚ) ^ (j - 24 : ℤ) ≤ 2 ^ ((n - 1).log2 - 24 : ℤ) :=
    zpow_le_zpow_right₀ (by norm_num) (by omega)
  exact beside.ge.trans (nearest_mono (by linarith))

theorem nearest_add_le {n j : ℕ} (short : n ≤ 2 ^ 23) (beyond : 2 ^ j ≤ n) :
    nearest (n + 2 ^ (j - 24 : ℤ)) ≤ n := by
  have some := Nat.two_pow_pos j
  have begins := Nat.log2_self_le (n := n) (by omega)
  have ends := Nat.lt_log2_self (n := n)
  have le : j ≤ n.log2 := (Nat.le_log2 (by omega)).2 beyond
  have least : n.log2 < 24 := (Nat.log2_lt (by omega)).2 (by omega)
  have power : (2 : ℚ) ^ (n.log2 - 24 : ℤ) < 1 := zpow_lt_one_of_neg₀ (by norm_num) (by omega)
  have beside : nearest (n + 2 ^ (n.log2 - 24 : ℤ)) = n := by
    refine nearest_beside (i := n.log2) (abs_of_pos (two_zpow_pos _)) short ?_ ?_ (by omega)
    · have : (2 : ℚ) ^ n.log2 ≤ n := by exact_mod_cast begins
      have := two_zpow_pos (n.log2 - 24 : ℤ)
      linarith
    · have : (n : ℚ) + 1 ≤ 2 ^ (n.log2 + 1) := by exact_mod_cast ends
      linarith
  have wider : (2 : ℚ) ^ (j - 24 : ℤ) ≤ 2 ^ (n.log2 - 24 : ℤ) :=
    zpow_le_zpow_right₀ (by norm_num) (by omega)
  exact (nearest_mono (by linarith)).trans beside.le

/-- The last place of a length is more than half of the last place under the end, unless the end is
beyond a power of two that is not below the length. -/
theorem nearest_sub_lt_iff {h : ℤ} {j : ℕ} (short : |h| ≤ 2 ^ 23) (least : j ≤ 24) :
    nearest (h - 2 ^ (j - 24 : ℤ)) < h ↔ ¬(2 ^ j < h ∨ 2 ^ j ≤ -h) := by
  have some : (0 : ℤ) < 2 ^ j := by positivity
  constructor
  · rintro less (positive | negative)
    · obtain ⟨n, rfl⟩ := Int.eq_ofNat_of_zero_le (by omega : 0 ≤ h)
      rw [Nat.abs_cast] at short
      have stays := le_nearest_sub (n := n) (by exact_mod_cast short) (by exact_mod_cast positive)
      rw [Int.cast_natCast] at less
      exact absurd less (not_lt.2 stays)
    · obtain ⟨n, same⟩ := Int.eq_ofNat_of_zero_le (by omega : 0 ≤ -h)
      obtain rfl : h = -n := by omega
      rw [abs_neg, Nat.abs_cast] at short
      rw [neg_neg] at negative
      have stays := nearest_add_le (n := n) (by exact_mod_cast short) (by exact_mod_cast negative)
      rw [Int.cast_neg, Int.cast_natCast, ← neg_add', nearest_neg, neg_lt_neg_iff] at less
      exact absurd less (not_lt.2 stays)
  · intro within
    have power : (2 ^ j * 2 ^ (24 - j) : ℤ) = 2 ^ 24 := by
      rw [← pow_add]
      congr 1
      omega
    have unit : (1 : ℤ) ≤ 2 ^ (24 - j) := one_le_pow₀ (by norm_num)
    obtain ⟨high, low⟩ := not_or.1 within
    have above : -2 ^ j + 1 ≤ h := by omega
    have below : h ≤ 2 ^ j := by omega
    have fits : Fits (h - 2 ^ (j - 24 : ℤ)) := by
      refine ⟨h * 2 ^ (24 - j) - 1, j - 24, ?_, by omega, ?_⟩
      · rw [abs_le]
        constructor <;> nlinarith
      · push_cast
        rw [sub_mul, mul_assoc, pow_mul_zpow (by omega), mul_one, one_mul]
    have last := two_zpow_pos (j - 24 : ℤ)
    rw [nearest_of_fits fits]
    linarith

end Number

namespace Block

theorem along_largest {low high : ℤ} {w j : ℕ} (shortLow : |low| ≤ 2 ^ 23)
    (shortHigh : |high| ≤ 2 ^ 23) (length : high - low = w) (below : w ≤ 2 ^ j)
    (above : 2 ^ j < 2 * w) :
    along low high (1 - 1 / 2 ^ 24) = nearest (high - 2 ^ (j - 24 : ℤ)) := by
  have bounds := And.intro (abs_le.1 shortLow) (abs_le.1 shortHigh)
  have short : w ≤ 2 ^ 24 := by omega
  have exactLow : nearest low = low := nearest_of_fits (fits_intCast (shortLow.trans (by norm_num)))
  have exactHigh : nearest high = high :=
    nearest_of_fits (fits_intCast (shortHigh.trans (by norm_num)))
  have exactLength : nearest ((high : ℚ) - low) = w := by
    have same : (high : ℚ) - low = (w : ℤ) := by exact_mod_cast congrArg (Int.cast (R := ℚ)) length
    rw [same, nearest_of_fits (fits_intCast (by rw [Nat.abs_cast]; exact_mod_cast short)),
      Int.cast_natCast]
  have sum : (low : ℚ) + (w - 2 ^ (j - 24 : ℤ)) = high - 2 ^ (j - 24 : ℤ) := by
    have : (high : ℚ) - low = w := by exact_mod_cast congrArg (Int.cast (R := ℚ)) length
    linarith
  rw [along, exactLow, exactHigh, exactLength, nearest_largest_draw short below above, sum]

/-- Between short ends the upper end can come out just if it is beyond a power of two that is not
below the length of the range. -/
theorem staysIn_iff {low high : ℤ} (lt : low < high) (shortLow : |low| ≤ 2 ^ 23)
    (shortHigh : |high| ≤ 2 ^ 23) :
    StaysIn low high ↔ ∀ j : ℕ, high - low ≤ 2 ^ j → ¬(2 ^ j < high ∨ 2 ^ j ≤ -high) := by
  obtain ⟨w, length⟩ := Int.eq_ofNat_of_zero_le (by omega : 0 ≤ high - low)
  have bounds := And.intro (abs_le.1 shortLow) (abs_le.1 shortHigh)
  obtain ⟨j, below, above⟩ : ∃ j, w ≤ 2 ^ j ∧ 2 ^ j < 2 * w := by
    refine ⟨Nat.clog 2 w, Nat.le_pow_clog (by norm_num) w, ?_⟩
    rcases eq_or_lt_of_le (by omega : 1 ≤ w) with rfl | more
    · simp
    · have previous := Nat.pow_pred_clog_lt_self (b := 2) (by norm_num) more
      have some := Nat.clog_pos (b := 2) (by norm_num) more
      have double : 2 ^ Nat.clog 2 w = 2 * 2 ^ (Nat.clog 2 w).pred := by
        rw [← pow_succ', Nat.pred_eq_sub_one, Nat.sub_add_cancel some]
      omega
  have least : j ≤ 24 := by
    by_contra long
    have : 2 ^ 25 ≤ 2 ^ j := Nat.pow_le_pow_right (by norm_num) (by omega)
    omega
  have exactLow : nearest low = low := nearest_of_fits (fits_intCast (shortLow.trans (by norm_num)))
  rw [StaysIn, along_largest shortLow shortHigh length below above, exactLow,
    nearest_sub_lt_iff shortHigh least, length]
  simp only [le_refl, true_and]
  constructor
  · intro within j' covers beyond
    -- The smallest power of two that covers the length is below every other one.
    have covers : w ≤ 2 ^ j' := by exact_mod_cast covers
    have smaller : 2 ^ j ≤ 2 ^ j' := by
      apply Nat.pow_le_pow_right (by norm_num)
      by_contra larger
      have : 2 ^ (j' + 1) ≤ 2 ^ j := Nat.pow_le_pow_right (by norm_num) (by omega)
      rw [pow_succ] at this
      omega
    have smaller : (2 : ℤ) ^ j ≤ 2 ^ j' := by exact_mod_cast smaller
    exact within (beyond.imp smaller.trans_lt smaller.trans)
  · intro within
    exact within j (by exact_mod_cast below)

end Block

example : Block.drawnInt 1 2 (2 ^ 24 - 1) = 2 := by decide +kernel

namespace Graph
variable {g : Graph} {s : Session} {id : BlockId}

/-- What a draw yields from a session from which the ends are read as integers. -/
def DrawsFrom (g : Graph) (id : BlockId) (s : Session) (v : Value) : Prop :=
  ∀ low high s₁ s₂, (g.readInput g.supplier (.input id 0)).run s = some (.int low, s₁) →
    (g.adaptInput g.supplier (.input id 1) .int).run s₁ = some (some (.int high), s₂) →
    ∃ k < 2 ^ 24, v = .int (Block.drawnInt low high k) ∧
      s₂.generator.unit.1 = single false k (-24)

theorem unit_lt (generator : Random.Generator) :
    ∃ k < 2 ^ 24, generator.unit.1 = single false k (-24) := by
  refine ⟨(generator.next.1 >>> 8).toNat, ?_, rfl⟩
  have := generator.next.1.toNat_lt
  rw [UInt32.toNat_shiftRight]
  simp only [UInt32.reduceToNat, Nat.reduceMod, Nat.shiftRight_eq_div_pow]
  omega

theorem ifEnds_freshRandom :
    IfEnds (g.runProgram g.supplier id Block.freshRandom) s fun v _ => g.DrawsFrom id s v := by
  intro v s' run low high s₁ s₂ first second
  obtain ⟨k, draw, unit⟩ := unit_lt s₂.generator
  have yields : IfEnds (g.runProgram g.supplier id Block.freshRandom) s fun v _ =>
      v = .int (Block.drawnInt low high k) := by
    change IfEnds (g.readInput g.supplier (.input id 0) >>= _) s _
    rw [ifEnds_bind]
    intro _ _ read
    cases first.symm.trans read
    change IfEnds (g.adaptInput g.supplier (.input id 1) .int >>= _) s₁ _
    rw [ifEnds_bind]
    intro _ _ adapt
    cases second.symm.trans adapt
    rintro _ _ ⟨⟩
    rw [Block.drawnInt, ← unit]
    rfl
  exact ⟨k, draw, yields v s' run, unit⟩

/-- A draw between two integers goes a fraction of 24 bits along the way and is floored. Every such
draw stays in the range, with its upper end left out, just if the smallest and the largest one do;
and between ends of at most 23 bits that is so unless the upper end, or its distance below zero, is
beyond a power of two that is not below the length. -/
theorem ReachableWith.draws (h : g.ReachableWith Block.IsStandard) {n : Node} {lock : Lock}
    (hn : g.node? id = some n) (hb : n.block = .random lock) :
    (∀ s, g.InPass s →
      Ends (g.runProgram g.supplier id Block.freshRandom) s fun v _ => g.DrawsFrom id s v) ∧
      (lock = .none → g.Evaluates id n (Block.randomProgram .none) (g.DrawsFrom id)) ∧
      (∀ low high : Int32, low < high →
        ((∀ k < 2 ^ 24, low ≤ Block.drawnInt low high k ∧ Block.drawnInt low high k < high) ↔
          Block.StaysIn low.toInt high.toInt)) ∧
      ∀ low high : ℤ, low < high → |low| ≤ 2 ^ 23 → |high| ≤ 2 ^ 23 →
        (Block.StaysIn low high ↔
          ∀ j : ℕ, high - low ≤ 2 ^ j → ¬(2 ^ j < high ∨ 2 ^ j ≤ -high)) := by
  have order := ReachableWith.inOrder h
  have fresh : ∀ s, g.InPass s → Ends (g.runProgram g.supplier id Block.freshRandom) s fun v _ =>
      g.DrawsFrom id s v := fun s underway =>
    ((order.ends_program (underway.orderly order) id Block.restores_freshRandom).and_ifEnds
      ifEnds_freshRandom).mono fun _ _ both => both.2
  refine ⟨fresh, ?_, fun low high => Block.drawnInt_mem_iff, fun low high => Block.staysIn_iff⟩
  rintro rfl
  exact order.evaluates hn hb (List.cons_ne_nil _ _) rfl fresh

def narrow : Graph :=
  [.add "one" (.input (.ofValue (.int 1))), .add "two" (.input (.ofValue (.int 2))),
    .add "between" (.random .none), .connectUnchecked (.output 0 0) (.input 2 0),
    .connectUnchecked (.output 1 0) (.input 2 1)].foldl Edit.apply .empty

theorem reachable_narrow : narrow.ReachableWith Block.IsStandard := by
  refine ReachableBy.foldl .empty _ ?_
  refine ⟨⟨?_, trivial⟩, ⟨?_, trivial⟩, ⟨?_, trivial⟩, ⟨trivial, trivial⟩, ⟨trivial, trivial⟩,
    trivial⟩ <;> decide +kernel

theorem draws_narrow :
    Ends (narrow.runProgram narrow.supplier 2 Block.freshRandom) (.start {})
        (fun v _ => ∃ k < 2 ^ 24, v = .int (Block.drawnInt 1 2 k)) ∧
      ¬∀ k < 2 ^ 24, (1 : Int32) ≤ Block.drawnInt 1 2 k ∧ Block.drawnInt 1 2 k < 2 := by
  obtain ⟨n, hn, hb⟩ : ∃ n, narrow.node? 2 = some n ∧ n.block = .random .none := ⟨_, rfl, rfl⟩
  obtain ⟨fresh, -, stays, short⟩ := ReachableWith.draws reachable_narrow hn hb
  constructor
  · refine (fresh (.start {}) (.start {})).mono fun v _ draws => ?_
    obtain ⟨k, draw, value, -⟩ := draws 1 2 _ _ rfl rfl
    exact ⟨k, draw, value⟩
  · rw [stays 1 2 (by decide)]
    change ¬Block.StaysIn 1 2
    rw [short 1 2 (by decide) (by decide) (by decide)]
    exact fun within => within 0 (by decide) (.inl (by decide))

end Graph
end MeshFlow
