import MeshFlow.Proofs.Arithmetic

set_option autoImplicit false

/-!
# Conversions of floats

The conversions that work on bit patterns, said about the numbers that floats stand for: a literal
or an integer becomes the float nearest to it, and back it is cut off toward zero and held in the
range of integers. The larger and the smaller of two floats stand for the larger and the smaller
number.
-/
namespace MeshFlow.Number
open Float.Model Float.Model.UnpackedFloat

theorem shiftRound_eq (n places : ℕ) :
    (Format.shiftRound n places : ℤ) = nearestInt ((n : ℚ) / 2 ^ places) := by
  have rounded := (shows_quotient n (Nat.two_pow_pos places)).roundedMantissa_eq
  push_cast at rounded
  rw [← rounded, Format.shiftRound, accuracyOfFraction]
  simp only [Nat.pow_eq, Nat.shiftRight_eq_div_pow]
  congr 1
  by_cases none : n % 2 ^ places = 0
  · have := Nat.two_pow_pos places
    rw [if_neg (by omega), if_pos none]
    rfl
  · rw [if_neg none]
    rcases lt_trichotomy (2 * (n % 2 ^ places)) (2 ^ places) with lt | tie | gt
    · rw [if_neg (by omega), compare_lt_iff_lt.2 lt]
      rfl
    · rw [compare_eq_iff_eq.2 tie]
      change _ = n / 2 ^ places + n / 2 ^ places % 2
      split_ifs <;> omega
    · rw [if_pos (by omega), compare_gt_iff_gt.2 gt]
      rfl

theorem significand_eq (m : ℕ) (e p : ℤ) :
    ((if p ≤ e then m <<< (e - p).toNat else Format.shiftRound m (p - e).toNat : ℕ) : ℤ)
      = nearestInt ((m : ℚ) * 2 ^ e / 2 ^ p) := by
  split_ifs with coarse
  · have exact : (m : ℚ) * 2 ^ e / 2 ^ p = ((m <<< (e - p).toNat : ℕ) : ℤ) := by
      rw [zpow_add_toNat coarse, Nat.shiftLeft_eq]
      push_cast
      field_simp [(two_zpow_pos p).ne']
    rw [exact, nearestInt_intCast]
  · rw [shiftRound_eq, zpow_add_toNat (show e ≤ p by omega)]
    have := (two_zpow_pos e).ne'
    push_cast
    congr 1
    field_simp

theorem place_le_of_le {q : ℚ} (positive : 0 < q) (small : q ≤ 2 ^ (127 : ℤ)) : place q ≤ 104 := by
  by_contra high
  have begins := zpow_le_abs positive.ne' (show -149 < place q by omega)
  rw [abs_of_pos positive] at begins
  have : (2 : ℚ) ^ (127 : ℤ) < 2 ^ (place q + 23) := zpow_lt_zpow_right₀ (by norm_num) (by omega)
  linarith

/-- The fields of a rounded significand. One that is rounded up to 25 bits goes to the next place. -/
theorem exists_canonical {r place : ℕ} (short : r ≤ 2 ^ 24) (leading : 0 < place → 2 ^ 23 ≤ r)
    (above : place ≤ 253) (bounded : (r : ℚ) * 2 ^ (-149 + place : ℤ) ≤ 2 ^ (127 : ℤ)) :
    ∃ m' place', Format.binary32.Canonical m' place' ∧
      min (if r < Nat.pow 2 23 then r else (-149 + place - -149 : ℤ).toNat * Nat.pow 2 23 + r)
        Format.binary32.infinityBits = place' * 2 ^ 23 + m' ∧
      (m' : ℚ) * 2 ^ (-149 + place' : ℤ) = r * 2 ^ (-149 + place : ℤ) := by
  rcases eq_or_lt_of_le short with rfl | below
  · have carried : ((2 ^ 23 : ℕ) : ℚ) * 2 ^ (-149 + (place + 1 : ℕ) : ℤ)
        = (2 ^ 24 : ℕ) * 2 ^ (-149 + place : ℤ) := by
      push_cast
      rw [← add_assoc, zpow_add₀ (by norm_num) _ (1 : ℤ)]
      ring
    have power : ((2 ^ 24 : ℕ) : ℚ) * 2 ^ (-149 + place : ℤ) = 2 ^ (24 + (-149 + place) : ℤ) := by
      rw [zpow_add₀ (by norm_num) 24]
      norm_num
    rw [power] at bounded
    have fits := (zpow_le_zpow_iff_right₀ (by norm_num)).1 bounded
    refine ⟨2 ^ 23, place + 1, ⟨by decide, fun _ => le_rfl, ?_⟩, ?_, carried⟩
    · change _ < 256
      omega
    · have infinite : Format.binary32.infinityBits = 255 * 2 ^ 23 := rfl
      rw [infinite, if_neg (by decide)]
      simp only [Nat.pow_eq]
      omega
  · have canonical : Format.binary32.Canonical r place := by
      refine ⟨?_, leading, ?_⟩
      · change _ < 2 * 2 ^ 23
        omega
      · change _ < 256
        omega
    exact ⟨r, place, canonical, canonical.magnitude_eq, rfl⟩

theorem roundMagnitude_nearest {m : ℕ} {e : ℤ} (small : (m : ℚ) * 2 ^ e ≤ 2 ^ (127 : ℤ)) :
    ∃ m' place, Format.binary32.Canonical m' place ∧
      Format.binary32.roundMagnitude m e = place * 2 ^ 23 + m' ∧
      (m' : ℚ) * 2 ^ (-149 + place : ℤ) = nearest (m * 2 ^ e) := by
  rcases Nat.eq_zero_or_pos m with rfl | positive
  · refine ⟨0, 0, ⟨by decide, by simp, by decide⟩, rfl, ?_⟩
    rw [Nat.cast_zero, zero_mul, zero_mul, nearest_zero]
  have some : (0 : ℚ) < m := by exact_mod_cast positive
  have scaled : (0 : ℚ) < m * 2 ^ e := mul_pos some (two_zpow_pos e)
  have least : Format.binary32.leastExponent = -149 := rfl
  have fraction : Format.binary32.fractionBits = 23 := rfl
  have places : max (e + (m.log2 : ℤ) - (23 : ℕ)) (-149) = place ((m : ℚ) * 2 ^ e) := by
    rw [place, abs_of_pos scaled, log_mul_zpow e positive ⟨le_rfl, by linarith⟩]
    congr 1
    push_cast
    ring
  have rounded := significand_eq m e (place ((m : ℚ) * 2 ^ e))
  rw [Format.roundMagnitude, if_neg positive.ne']
  simp only [least, fraction, places]
  generalize (if place ((m : ℚ) * 2 ^ e) ≤ e then m <<< (e - place ((m : ℚ) * 2 ^ e)).toNat
    else Format.shiftRound m (place ((m : ℚ) * 2 ^ e) - e).toNat) = r at rounded ⊢
  obtain ⟨short, leading, value⟩ := significand_bounds scaled rounded
  have above := place_le_of_le scaled small
  have bounded : nearest ((m : ℚ) * 2 ^ e) ≤ 2 ^ (127 : ℤ) :=
    nearest_le (fits_two_zpow (by norm_num)) small
  have lower : -149 ≤ place ((m : ℚ) * 2 ^ e) := le_max_right _ _
  generalize place ((m : ℚ) * 2 ^ e) = p at leading value lower above ⊢
  obtain ⟨place, rfl⟩ : ∃ place : ℕ, p = -149 + place := ⟨(p + 149).toNat, by omega⟩
  rw [← value] at bounded ⊢
  exact exists_canonical short (fun _ => leading (by omega)) (by omega) bounded

theorem toBits_ofBits_single {bits : UInt32} (finite : IsFinitePattern bits) :
    (Float32.ofBits bits).toBits = bits := by
  have exponent := (unpackExponent_ne_iff .binary32 bits.toBitVec).2 finite
  have same := pack_unpack .binary32 (by decide) _ exponent
  exact congrArg UInt32.ofBitVec same

theorem stands_single (negative : Bool) {m : ℕ} {e : ℤ} (small : (m : ℚ) * 2 ^ e ≤ 2 ^ (127 : ℤ)) :
    Stands (single negative m e) (nearest ((signOf negative).apply m * 2 ^ e)) := by
  obtain ⟨m', place, canonical, rounded, value⟩ := roundMagnitude_nearest small
  have toNat : (UInt32.ofNat (Format.binary32.pattern negative m' place)).toNat
      = Format.binary32.pattern negative m' place :=
    UInt32.toNat_ofNat_of_lt (canonical.pattern_lt negative)
  have read := canonical.read_pattern negative
  have finite : IsFinitePattern (.ofNat (Format.binary32.pattern negative m' place)) := by
    rw [IsFinitePattern, toNat]
    exact (Format.read_finite_iff .binary32 _).1 ⟨_, _, _, read⟩
  have stands : Stands (single negative m e)
      ((signOf negative).apply m' * 2 ^ (-149 + place : ℤ)) := stands_of_reading canonical (by
    rw [reading, single, Format.round, rounded]
    change Format.binary32.read
      (Float32.ofBits (.ofNat (Format.binary32.pattern negative m' place))).toBits.toNat = _
    rw [toBits_ofBits_single finite, toNat]
    exact read)
  rw [apply_natCast, mul_assoc, value, ← nearest_signed, ← mul_assoc, ← apply_natCast] at stands
  exact stands

theorem stands_ofInt {i : ℤ} (small : |i| ≤ 2 ^ 127) : Stands (ofInt i) (nearest i) := by
  have signed : ((signOf (i < 0)).apply i.natAbs : ℤ) = i := by
    rw [signOf]
    split_ifs with negative <;> simp only [decide_eq_true_eq] at negative <;>
      simp only [Sign.apply] <;> omega
  have magnitude : ((i.natAbs : ℕ) : ℚ) * 2 ^ (0 : ℤ) ≤ 2 ^ (127 : ℤ) := by
    rw [zpow_zero, mul_one, Nat.cast_natAbs]
    exact_mod_cast small
  have stands := stands_single (i < 0) magnitude
  rw [signed, zpow_zero, mul_one] at stands
  exact stands

/-- The integer next to a number on the side of zero. -/
def truncate (q : ℚ) : ℤ := if 0 ≤ q then ⌊q⌋ else ⌈q⌉

theorem truncate_intCast (n : ℤ) : truncate n = n := by
  rw [truncate, Int.floor_intCast, Int.ceil_intCast, ite_self]

theorem truncate_neg (q : ℚ) : truncate (-q) = -truncate q := by
  unfold truncate
  rcases lt_trichotomy q 0 with negative | rfl | positive
  · rw [if_pos (by linarith), if_neg (by linarith), Int.floor_neg]
  · simp
  · rw [if_neg (by linarith), if_pos positive.le, Int.ceil_neg]

theorem floor_magnitude (m : ℕ) (e : ℤ) :
    ((if 0 ≤ e then m <<< e.toNat else m >>> (-e).toNat : ℕ) : ℤ) = ⌊(m : ℚ) * 2 ^ e⌋ := by
  split_ifs with whole
  · have power := zpow_add_toNat whole
    rw [sub_zero, zpow_zero, mul_one] at power
    have exact : (m : ℚ) * 2 ^ e = ((m <<< e.toNat : ℕ) : ℤ) := by
      rw [power, Nat.shiftLeft_eq]
      push_cast
      rfl
    rw [exact, Int.floor_intCast]
  · have power := zpow_add_toNat (show e ≤ 0 by omega)
    rw [zero_sub, zpow_zero] at power
    have quotient : (m : ℚ) * 2 ^ e = ((m : ℤ) : ℚ) / (2 ^ (-e).toNat : ℕ) := by
      rw [eq_div_iff (by positivity), mul_assoc, mul_comm ((2 : ℚ) ^ e), ← power, mul_one,
        Int.cast_natCast]
    rw [quotient, Rat.floor_intCast_div_natCast, Nat.shiftRight_eq_div_pow]
    rfl

theorem towardZero_eq (negative : Bool) (m : ℕ) (e : ℤ) :
    towardZero negative m e = truncate ((signOf negative).apply m * 2 ^ e) := by
  have nonneg : 0 ≤ (m : ℚ) * 2 ^ e := mul_nonneg (by positivity) (two_zpow_pos e).le
  have magnitude := floor_magnitude m e
  have whole : truncate ((m : ℚ) * 2 ^ e) = ⌊(m : ℚ) * 2 ^ e⌋ := if_pos nonneg
  cases negative
  · simp only [towardZero, signOf, Sign.apply, Bool.false_eq_true, if_false, Int.cast_natCast]
    rw [whole, magnitude]
  · simp only [towardZero, signOf, Sign.apply, if_true, Int.cast_neg, neg_mul, Int.cast_natCast]
    rw [truncate_neg, whole, magnitude]

theorem Stands.exists_reading {x : Float32} {q : ℚ} (stands : Stands x q) :
    ∃ negative m e, reading x = .finite negative m e ∧ m < 2 ^ 24 ∧
      q = (signOf negative).apply m * 2 ^ e := by
  obtain ⟨negative, m, place, canonical, read, -⟩ := reading_of_finite stands.isFinite
  have short : m < 2 * 2 ^ 23 := canonical.lt
  exact ⟨negative, m, _, read, by omega, stands.unique (stands_of_reading canonical read)⟩

theorem Stands.clampToInt {x : Float32} {q : ℚ} (stands : Stands x q) (least greatest : ℤ) :
    clampToInt least greatest x = max least (min greatest (truncate q)) := by
  obtain ⟨negative, m, e, read, -, rfl⟩ := stands.exists_reading
  rw [Number.clampToInt, read]
  simp only [towardZero_eq]

theorem Stands.toInt32 {x : Float32} {q : ℚ} (stands : Stands x q) :
    (toInt32 x).toInt = max (-2 ^ 31) (min (2 ^ 31 - 1) (truncate q)) := by
  rw [Number.toInt32, stands.clampToInt, Int32.toInt_ofInt_of_le]
  · rfl
  · omega
  · omega

theorem stands_whole (negative : Bool) {n : ℕ} {i : ℤ} (signed : (signOf negative).apply n = i)
    (short : |i| ≤ 2 ^ 24) : Stands (single negative n 0) i := by
  have magnitude : (n : ℚ) * 2 ^ (0 : ℤ) ≤ 2 ^ (127 : ℤ) := by
    have bounded : ((|i| : ℤ) : ℚ) ≤ 2 ^ (24 : ℤ) := by exact_mod_cast short
    rw [← signed, Int.cast_abs, abs_apply] at bounded
    rw [zpow_zero, mul_one]
    exact bounded.trans (zpow_le_zpow_right₀ (by norm_num) (by norm_num))
  have stands := stands_single negative magnitude
  rw [signed, zpow_zero, mul_one, nearest_of_fits (fits_intCast short)] at stands
  exact stands

theorem floor_neg_magnitude (m places : ℕ) :
    -(((m + (2 ^ places - 1)) >>> places : ℕ) : ℤ) = ⌊-((m : ℚ) / 2 ^ places)⌋ := by
  have positive := Nat.two_pow_pos places
  have division := Nat.div_add_mod (m + (2 ^ places - 1)) (2 ^ places)
  have rest := Nat.mod_lt (m + (2 ^ places - 1)) positive
  rw [Nat.shiftRight_eq_div_pow]
  generalize (m + (2 ^ places - 1)) / 2 ^ places = n at division ⊢
  have above : m ≤ 2 ^ places * n := by omega
  have below : 2 ^ places * n < m + 2 ^ places := by omega
  symm
  rw [Int.floor_eq_iff, Int.cast_neg, Int.cast_natCast]
  have unit : (0 : ℚ) < 2 ^ places := by positivity
  constructor
  · rw [neg_le_neg_iff, div_le_iff₀ unit, mul_comm]
    exact_mod_cast above
  · have : (n : ℚ) - 1 < m / 2 ^ places := by
      rw [lt_div_iff₀ unit]
      have : (2 : ℚ) ^ places * n < m + 2 ^ places := by exact_mod_cast below
      linarith
    linarith

theorem Stands.floor {x : Float32} {q : ℚ} (stands : Stands x q) : Stands (floor x) ⌊q⌋ := by
  obtain ⟨negative, m, e, read, short, value⟩ := stands.exists_reading
  rw [Number.floor, read]
  dsimp only
  by_cases whole : 0 ≤ e
  · have power := zpow_add_toNat whole
    rw [sub_zero, zpow_zero, mul_one] at power
    have exact : q = (((signOf negative).apply m * (2 ^ e.toNat : ℕ) : ℤ) : ℚ) := by
      rw [value, power, Int.cast_mul, Int.cast_natCast]
    rw [if_pos whole]
    rw [exact] at stands ⊢
    rwa [Int.floor_intCast]
  · have power := zpow_add_toNat (show e ≤ 0 by omega)
    rw [zero_sub, zpow_zero] at power
    have scale : (2 : ℚ) ^ e = 1 / 2 ^ (-e).toNat := by
      rw [eq_div_iff (by positivity), mul_comm, power]
      push_cast
      rfl
    have bounded : |q| < 2 ^ 24 := by
      rw [value, abs_mul, abs_apply, abs_of_pos (two_zpow_pos e)]
      calc (m : ℚ) * 2 ^ e ≤ m := mul_le_of_le_one_right (by positivity)
            (zpow_le_one_of_nonpos₀ (by norm_num) (by omega))
        _ < 2 ^ 24 := by exact_mod_cast short
    have shortFloor : |⌊q⌋| ≤ 2 ^ 24 := by
      obtain ⟨low, high⟩ := abs_lt.1 bounded
      rw [abs_le]
      constructor
      · exact Int.le_floor.2 (by push_cast; exact low.le)
      · have := (Int.floor_le q).trans_lt high
        exact_mod_cast this.le
    rw [if_neg whole]
    apply stands_whole negative _ shortFloor
    rw [value, scale]
    cases negative
    · have quotient := Rat.floor_intCast_div_natCast m (2 ^ (-e).toNat)
      simp only [signOf, Sign.apply, Bool.false_eq_true, if_false, Int.cast_natCast, mul_one_div,
        Nat.shiftRight_eq_div_pow]
      push_cast at quotient ⊢
      rw [quotient]
    · have quotient := floor_neg_magnitude m (-e).toNat
      simp only [signOf, Sign.apply, if_true, Int.cast_neg, Int.cast_natCast, mul_one_div,
        Nat.pow_eq, neg_div]
      exact quotient

section
variable {x y : Float32} {p q : ℚ}

theorem Stands.isNaN (stands : Stands x p) : x.isNaN = false := by
  change (unpacked x).isNaN = false
  have shaped := stands.shaped
  generalize unpacked x = u at shaped
  cases shaped <;> rfl

theorem Stands.larger (first : Stands x p) (second : Stands y q) :
    Stands (larger x y) (max p q) := by
  rw [Number.larger, first.isNaN]
  simp only [Bool.false_or, decide_eq_true_eq, first.lt_iff second]
  split_ifs with less
  · rwa [max_eq_right less.le]
  · rwa [max_eq_left (not_lt.1 less)]

theorem Stands.smaller (first : Stands x p) (second : Stands y q) :
    Stands (smaller x y) (min p q) := by
  rw [Number.smaller, first.isNaN]
  simp only [Bool.false_or, decide_eq_true_eq, second.lt_iff first]
  split_ifs with less
  · rwa [min_eq_right less.le]
  · rwa [min_eq_left (not_lt.1 less)]

end

end MeshFlow.Number
