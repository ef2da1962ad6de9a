import MeshFlow.Proofs.Nearest
import MeshFlow.Proofs.Rounding

set_option autoImplicit false

/-!
# Rounded results

How arithmetic rounds. Of the exact result it keeps a significand and two more bits: the first one
that is cut off, and whether anything is left behind it. That is enough to find the nearest number.
The significand may round up to one bit more and is then shifted once again, which loses nothing.
-/
namespace MeshFlow.Number
open Float.Model Float.Model.UnpackedFloat

/-- What a significand tells with its two bits of the number that it was cut from. -/
def Shows : ExtendedMantissa → ℚ → Prop
  | ⟨m, false, false⟩, t => t = m
  | ⟨m, false, true⟩, t => m < t ∧ t < m + 1 / 2
  | ⟨m, true, false⟩, t => t = m + 1 / 2
  | ⟨m, true, true⟩, t => m + 1 / 2 < t ∧ t < m + 1

theorem shows_exact (m : ℕ) : Shows (.ofMantissaAndAccuracy m .exact) m := rfl

theorem shows_quotient (n : ℕ) {d : ℕ} (positive : 0 < d) :
    Shows (.ofMantissaAndAccuracy (n / d) (accuracyOfFraction (n % d) d)) (n / d) := by
  have divisor : (0 : ℚ) < d := by exact_mod_cast positive
  have parts : (n / d : ℚ) = (n / d : ℕ) + (n % d : ℕ) / d := by
    field_simp
    exact_mod_cast (Nat.div_add_mod n d).symm
  have remainder : ((n % d : ℕ) : ℚ) < d := by exact_mod_cast Nat.mod_lt n positive
  have below : ((n % d : ℕ) : ℚ) / d < 1 := (div_lt_one divisor).2 remainder
  unfold accuracyOfFraction
  rw [parts]
  split_ifs with none
  · rw [none]
    change _ + ((0 : ℕ) : ℚ) / d = _
    simp
  have some : (0 : ℚ) < (n % d : ℕ) / d :=
    div_pos (by exact_mod_cast Nat.pos_of_ne_zero none) divisor
  rcases lt_trichotomy (2 * (n % d)) d with less | equal | more
  · have half : ((n % d : ℕ) : ℚ) / d < 1 / 2 := by
      rw [div_lt_div_iff₀ divisor (by norm_num), one_mul, mul_comm]
      exact_mod_cast less
    rw [compare_lt_iff_lt.2 less]
    constructor <;> linarith
  · have half : ((n % d : ℕ) : ℚ) / d = 1 / 2 := by
      rw [div_eq_div_iff divisor.ne' (by norm_num), one_mul, mul_comm]
      exact_mod_cast equal
    rw [compare_eq_iff_eq.2 equal]
    change _ = _
    rw [half]
  · have half : 1 / 2 < ((n % d : ℕ) : ℚ) / d := by
      rw [div_lt_div_iff₀ (by norm_num) divisor, one_mul, mul_comm]
      exact_mod_cast more
    rw [compare_gt_iff_gt.2 more]
    constructor <;> linarith

theorem Shows.shiftRightOne {em : ExtendedMantissa} {t : ℚ} (shows : Shows em t) :
    Shows em.shiftRightOne (t / 2) := by
  obtain ⟨m, round, sticky⟩ := em
  have whole : (m : ℚ) = 2 * ((m / 2 : ℕ) : ℚ) + ((m % 2 : ℕ) : ℚ) := by
    exact_mod_cast (Nat.div_add_mod m 2).symm
  rcases Nat.mod_two_eq_zero_or_one m with even | odd
  · have shifted : ExtendedMantissa.shiftRightOne ⟨m, round, sticky⟩
        = ⟨m / 2, false, round || sticky⟩ := by simp [ExtendedMantissa.shiftRightOne, even]
    rw [shifted]
    rw [even, Nat.cast_zero] at whole
    cases round <;> cases sticky <;> simp only [Shows, Bool.or_true, Bool.or_false] at shows ⊢
    · linarith
    all_goals constructor <;> linarith
  · have shifted : ExtendedMantissa.shiftRightOne ⟨m, round, sticky⟩
        = ⟨m / 2, true, round || sticky⟩ := by simp [ExtendedMantissa.shiftRightOne, odd]
    rw [shifted]
    rw [odd, Nat.cast_one] at whole
    cases round <;> cases sticky <;> simp only [Shows, Bool.or_true, Bool.or_false] at shows ⊢
    · linarith
    all_goals constructor <;> linarith

theorem Shows.shiftRight {em : ExtendedMantissa} {t : ℚ} (shows : Shows em t) (places : ℕ) :
    Shows (em >>> places) (t / 2 ^ places) := by
  induction places with
  | zero =>
    rw [pow_zero, div_one]
    exact shows
  | succ places ih =>
    have next := ih.shiftRightOne
    rwa [div_div, ← pow_succ] at next

theorem Shows.floor {em : ExtendedMantissa} {t : ℚ} (shows : Shows em t) :
    (em.mantissa : ℚ) ≤ t ∧ t < em.mantissa + 1 := by
  obtain ⟨m, round, sticky⟩ := em
  cases round <;> cases sticky <;> simp only [Shows] at shows ⊢
  all_goals constructor <;> linarith

/-- The two bits are enough to round. -/
theorem Shows.roundedMantissa_eq {em : ExtendedMantissa} {t : ℚ} (shows : Shows em t) :
    (em.roundedMantissa : ℤ) = nearestInt t := by
  obtain ⟨m, round, sticky⟩ := em
  symm
  apply nearestInt_eq
  cases round <;> cases sticky <;>
    simp only [Shows, ExtendedMantissa.roundedMantissa, ExtendedMantissa.accuracy,
      Accuracy.roundToNearestEven, Int.cast_natCast] at shows ⊢
  · left
    rw [shows]
    norm_num
  · left
    rw [abs_lt]
    constructor <;> linarith
  · right
    rcases Nat.mod_two_eq_zero_or_one m with even | odd
    · rw [even, Nat.add_zero, shows]
      refine ⟨by norm_num [abs_of_neg], ?_⟩
      exact_mod_cast Nat.even_iff.2 even
    · rw [odd, shows]
      push_cast
      refine ⟨by norm_num [abs_of_pos], ?_⟩
      exact_mod_cast (Nat.odd_iff.2 odd).add_one
  · left
    push_cast
    rw [abs_lt]
    constructor <;> linarith

/-- A zero, or a form that the bits of a number have, with no bound on the exponent from above. -/
inductive Shaped : UnpackedFloat → Prop
  | zero (s : Sign) : Shaped (.zero s)
  | finite (s : Sign) {m : ℕ} {e : ℤ} (positive : 0 < m) (short : m < 2 ^ 24) (least : -149 ≤ e)
    (leading : -149 < e → 2 ^ 23 ≤ m) : Shaped (.finite s m e positive)

/-- The number that a form stands for, and zero for what stands for no number. -/
def formValue : UnpackedFloat → ℚ
  | .finite s m e _ => s.apply m * 2 ^ e
  | _ => 0

theorem formValue_zero (s : Sign) : formValue (.zero s) = 0 := rfl

theorem formValue_finite (s : Sign) {m : ℕ} (e : ℤ) (positive : 0 < m) :
    formValue (.finite s m e positive) = s.apply m * 2 ^ e := rfl

theorem shaped_finite_iff {s : Sign} {m : ℕ} {e : ℤ} (positive : 0 < m) :
    Shaped (.finite s m e positive) ↔ m < 2 ^ 24 ∧ -149 ≤ e ∧ (-149 < e → 2 ^ 23 ≤ m) := by
  constructor
  · intro shaped
    cases shaped with
    | finite _ _ short least leading => exact ⟨short, least, leading⟩
  · rintro ⟨short, least, leading⟩
    exact .finite s positive short least leading

/-- The form of the number nearest to `q`; a zero has either sign. -/
structure Rounds (u : UnpackedFloat) (q : ℚ) : Prop where
  shaped : Shaped u
  value : formValue u = nearest q

theorem Shaped.fits {u : UnpackedFloat} (shaped : Shaped u) : Fits (formValue u) := by
  cases shaped with
  | zero s => exact fits_zero
  | @finite s m e positive short least leading =>
    refine ⟨s.apply m, e, ?_, least, rfl⟩
    cases s <;> simp only [Sign.apply, abs_neg, Nat.abs_cast] <;> exact_mod_cast short.le

theorem Shaped.rounds {u : UnpackedFloat} (shaped : Shaped u) : Rounds u (formValue u) :=
  ⟨shaped, (nearest_of_fits shaped.fits).symm⟩

theorem log_eq {x : ℚ} {k : ℤ} (low : 2 ^ k ≤ x) (high : x < 2 ^ (k + 1)) : Int.log 2 x = k := by
  have positive : 0 < x := lt_of_lt_of_le (two_zpow_pos k) low
  have above := (Int.zpow_le_iff_le_log (b := 2) (by norm_num) positive).1 (by exact_mod_cast low)
  have below := (Int.lt_zpow_iff_log_lt (b := 2) (by norm_num) positive).1 (by exact_mod_cast high)
  omega

theorem log_mul_zpow {m : ℕ} {t : ℚ} (e : ℤ) (positive : 0 < m) (floor : m ≤ t ∧ t < m + 1) :
    Int.log 2 (t * 2 ^ e) = m.log2 + e := by
  have scale := two_zpow_pos e
  have low : 2 ^ m.log2 ≤ m := Nat.log2_self_le positive.ne'
  have high : m + 1 ≤ 2 ^ (m.log2 + 1) := Nat.lt_log2_self
  apply log_eq
  · rw [zpow_add₀ (by norm_num), zpow_natCast]
    apply mul_le_mul_of_nonneg_right _ scale.le
    exact le_trans (by exact_mod_cast low) floor.1
  · rw [add_right_comm, zpow_add₀ (by norm_num)]
    apply mul_lt_mul_of_pos_right _ scale
    exact lt_of_lt_of_le floor.2 (by exact_mod_cast high)

theorem targetExponent_eq (m : ℕ) (e : ℤ) :
    Float.Model.Format.targetExponent .binary32 (totalExponent m e)
      = max (m.log2 + e - 23) (-149) := by
  have bits : Float.Model.Format.mantissaBits .binary32 = 24 := rfl
  have least : Float.Model.Format.minExponent .binary32 = -149 := rfl
  rw [Float.Model.Format.targetExponent, totalExponent, bits, least]
  congr 1
  push_cast
  ring

theorem targetExponent_eq_place {m : ℕ} {e : ℤ} {t : ℚ} (positive : 0 < t)
    (floor : m ≤ t ∧ t < m + 1) (fine : e ≤ place (t * 2 ^ e)) :
    Float.Model.Format.targetExponent .binary32 (totalExponent m e) = place (t * 2 ^ e) := by
  have scaled : 0 < t * 2 ^ e := mul_pos positive (two_zpow_pos e)
  have places : place (t * 2 ^ e) = max (Int.log 2 (t * 2 ^ e) - 23) (-149) := by
    rw [place, abs_of_pos scaled]
  rw [targetExponent_eq]
  rcases Nat.eq_zero_or_pos m with rfl | some
  · have small : t * 2 ^ e < ((2 : ℕ) : ℚ) ^ e := by
      push_cast
      have := floor.2
      rw [Nat.cast_zero, zero_add] at this
      exact mul_lt_of_lt_one_left (two_zpow_pos e) this
    have below := (Int.lt_zpow_iff_log_lt (by norm_num) scaled).1 small
    rw [places] at fine ⊢
    simp only [Nat.log2_zero, Nat.cast_zero]
    omega
  · rw [places, log_mul_zpow e some floor]

theorem floor_le_nearestInt {q : ℚ} {n : ℤ} (le : n ≤ q) : n ≤ nearestInt q := by
  have := Int.le_floor.2 le
  unfold nearestInt
  split_ifs <;> omega

theorem shiftToExponent_eq {m : ℕ} {e target : ℤ} (acc : Accuracy) (le : e ≤ target) :
    shiftToExponent m e acc target
      = (ExtendedMantissa.ofMantissaAndAccuracy m acc >>> (target - e).toNat, target) := by
  unfold shiftToExponent
  simp only [Int.toNat_of_nonneg (show 0 ≤ target - e by omega), add_sub_cancel]

theorem shiftToExponent_of_le {m : ℕ} {e target : ℤ} (acc : Accuracy) (le : target ≤ e) :
    shiftToExponent m e acc target = (.ofMantissaAndAccuracy m acc, e) := by
  have none : (target - e).toNat = 0 := by omega
  rw [shiftToExponent, none, Nat.cast_zero, add_zero]
  rfl

/-- A significand of 25 bits is a power of two and loses nothing. -/
theorem shiftToTargetExponent_rounded {r : ℕ} {e : ℤ} (short : r ≤ 2 ^ 24) (least : -149 ≤ e)
    (leading : -149 < e → 2 ^ 23 ≤ r) :
    ∃ m e', (shiftToTargetExponent .binary32 r e .exact).1.mantissa = m ∧
      (shiftToTargetExponent .binary32 r e .exact).2 = e' ∧ m < 2 ^ 24 ∧ -149 ≤ e' ∧
      (-149 < e' → 2 ^ 23 ≤ m) ∧ (m : ℚ) * 2 ^ e' = r * 2 ^ e := by
  rw [shiftToTargetExponent, targetExponent_eq]
  rcases eq_or_lt_of_le short with rfl | below
  · have log : (2 ^ 24 : ℕ).log2 = 24 := Nat.log2_two_pow
    refine ⟨2 ^ 23, e + 1, ?_, ?_, by norm_num, by omega, fun _ => le_rfl, ?_⟩
    · rw [log, shiftToExponent_eq _ (by omega)]
      have one : (max ((24 : ℕ) + e - 23) (-149) - e).toNat = 1 := by omega
      rw [one]
      rfl
    · rw [log, shiftToExponent_eq _ (by omega)]
      simp only
      omega
    · rw [zpow_add₀ (by norm_num)]
      push_cast
      ring
  · have log : r.log2 ≤ 23 := by
      rcases Nat.eq_zero_or_pos r with rfl | positive
      · simp
      · exact Nat.le_of_lt_succ ((Nat.log2_lt positive.ne').2 below)
    rw [shiftToExponent_of_le _ (by omega)]
    exact ⟨r, e, rfl, rfl, below, least, leading, rfl⟩

theorem significand_bounds {q : ℚ} (positive : 0 < q) {r : ℕ}
    (rounded : (r : ℤ) = nearestInt (q / 2 ^ place q)) :
    r ≤ 2 ^ 24 ∧ (-149 < place q → 2 ^ 23 ≤ r) ∧ r * 2 ^ place q = nearest q := by
  refine ⟨?_, fun above => ?_, ?_⟩
  · have short := abs_nearestInt_le q
    rw [← rounded, Nat.abs_cast] at short
    exact_mod_cast short
  · have begins := zpow_le_abs positive.ne' above
    rw [abs_of_pos positive, add_comm, zpow_add₀ (by norm_num)] at begins
    have long := floor_le_nearestInt (q := q / 2 ^ place q) (n := 2 ^ 23)
      ((le_div_iff₀ (two_zpow_pos _)).2 (by exact_mod_cast begins))
    rw [← rounded] at long
    exact_mod_cast long
  · rw [nearest, ← rounded, Int.cast_natCast]

theorem nearest_signed (s : Sign) (q : ℚ) : nearest (s.apply 1 * q) = s.apply 1 * nearest q := by
  cases s <;> simp [Sign.apply, nearest_neg]

theorem apply_natCast (s : Sign) (m : ℕ) : (s.apply m : ℚ) = s.apply 1 * m := by
  cases s <;> simp [Sign.apply]

theorem roundWithAccuracy_rounds {m : ℕ} {e : ℤ} {acc : Accuracy} {t : ℚ} (s : Sign)
    (positive : 0 < t) (shows : Shows (.ofMantissaAndAccuracy m acc) t)
    (fine : e ≤ place (t * 2 ^ e)) :
    Rounds (roundWithAccuracy .binary32 s m e acc) (s.apply 1 * (t * 2 ^ e)) := by
  have scaled : 0 < t * 2 ^ e := mul_pos positive (two_zpow_pos e)
  have floor : (m : ℚ) ≤ t ∧ t < m + 1 := by
    cases acc with
    | exact => exact shows.floor
    | inexact o => cases o <;> exact shows.floor
  have target := targetExponent_eq_place positive floor fine
  have shifted : t * 2 ^ e / 2 ^ place (t * 2 ^ e) = t / 2 ^ (place (t * 2 ^ e) - e).toNat := by
    rw [div_eq_div_iff (two_zpow_pos _).ne' (by positivity), zpow_add_toNat fine]
    push_cast
    ring
  have first := shows.shiftRight (place (t * 2 ^ e) - e).toNat
  rw [← shifted] at first
  obtain ⟨short, leading, value⟩ := significand_bounds scaled first.roundedMantissa_eq
  obtain ⟨m', e', mantissa, exponent, short', least, leading', same⟩ :=
    shiftToTargetExponent_rounded short (le_max_right _ _) leading
  have unfolded : roundWithAccuracy .binary32 s m e acc
      = if h : m' = 0 then .zero s else .finite s m' e' (Nat.pos_of_ne_zero h) := by
    subst mantissa exponent
    rw [roundWithAccuracy, shiftToTargetExponent, target, shiftToExponent_eq acc fine]
    rfl
  have nearestValue : nearest (s.apply 1 * (t * 2 ^ e)) = s.apply m' * 2 ^ e' := by
    rw [nearest_signed, ← value, apply_natCast, mul_assoc]
    exact congrArg _ same.symm
  rw [unfolded]
  split_ifs with none
  · refine ⟨.zero s, ?_⟩
    rw [nearestValue, none]
    cases s <;> simp [Sign.apply, formValue]
  · exact ⟨.finite s _ short' least leading', nearestValue.symm⟩

theorem round_rounds (s : Sign) {m : ℕ} (positive : 0 < m) (e : ℤ) :
    Rounds (UnpackedFloat.round .binary32 s m e) (s.apply 1 * (m * 2 ^ e)) := by
  have some : (0 : ℚ) < m := by exact_mod_cast positive
  have target : Float.Model.Format.targetExponent .binary32 (totalExponent m e)
      = place ((m : ℚ) * 2 ^ e) := by
    rw [targetExponent_eq, place, abs_of_pos (mul_pos some (two_zpow_pos e)),
      log_mul_zpow e positive ⟨le_rfl, by linarith⟩]
  have lowered : ((m <<< (e - place ((m : ℚ) * 2 ^ e)).toNat : ℕ) : ℚ)
      * 2 ^ (e - ((e - place ((m : ℚ) * 2 ^ e)).toNat : ℤ)) = m * 2 ^ e := by
    rw [Nat.shiftLeft_eq, zpow_sub₀ (by norm_num), zpow_natCast]
    push_cast
    field_simp
  have raised : (0 : ℚ) < (m <<< (e - place ((m : ℚ) * 2 ^ e)).toNat : ℕ) := by
    rw [Nat.shiftLeft_eq]
    exact_mod_cast Nat.mul_pos positive (Nat.two_pow_pos _)
  have rounds := roundWithAccuracy_rounds
    (e := e - ((e - place ((m : ℚ) * 2 ^ e)).toNat : ℤ)) s raised (shows_exact _) (by
      rw [lowered]
      omega)
  rw [lowered] at rounds
  rw [UnpackedFloat.round, target]
  exact rounds

theorem normalize_rounds (n e : ℤ) (s : Sign) :
    Rounds (UnpackedFloat.normalize .binary32 n e s) (n * 2 ^ e) := by
  unfold UnpackedFloat.normalize
  rcases lt_trichotomy n 0 with negative | rfl | positive
  · have rounds := round_rounds .negative (m := (-n).toNat) (by omega) e
    have natural : (((-n).toNat : ℕ) : ℚ) = -n := by
      exact_mod_cast Int.toNat_of_nonneg (show 0 ≤ -n by omega)
    rw [natural] at rounds
    simp only [Sign.apply, Int.cast_neg, Int.cast_one, neg_mul, one_mul, neg_neg] at rounds
    rw [compare_lt_iff_lt.2 negative]
    exact rounds
  · rw [compare_eq_iff_eq.2 rfl, Int.cast_zero, zero_mul]
    exact ⟨.zero s, nearest_zero.symm⟩
  · have rounds := round_rounds .positive (m := n.toNat) (by omega) e
    have natural : ((n.toNat : ℕ) : ℚ) = n := by
      exact_mod_cast Int.toNat_of_nonneg positive.le
    rw [natural] at rounds
    simp only [Sign.apply, Int.cast_one, one_mul] at rounds
    rw [compare_gt_iff_gt.2 positive]
    exact rounds

end MeshFlow.Number
