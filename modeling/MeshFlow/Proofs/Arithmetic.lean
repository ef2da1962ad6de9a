import MeshFlow.Proofs.Rounded

set_option autoImplicit false

/-!
# Single-precision arithmetic

A finite float stands for a rational number. Sums, differences, products and quotients stand for
the number nearest to the exact result, unless that is too large, and floats are ordered as the
numbers that they stand for.
-/
namespace MeshFlow.Number
open Float.Model Float.Model.UnpackedFloat

def signOf (negative : Bool) : Sign := if negative then .negative else .positive

def formOf (negative : Bool) (m : ℕ) (e : ℤ) : UnpackedFloat :=
  if h : m = 0 then .zero (signOf negative)
  else .finite (signOf negative) m e (Nat.pos_of_ne_zero h)

theorem toNat_unpackMantissa (b : BitVec (Float.Model.Format.numBits .binary32)) :
    (unpackMantissa b).toNat = b.toNat % 2 ^ 23 := by
  rw [unpackMantissa, BitVec.toNat_cast, BitVec.extractLsb_toNat]
  rfl

theorem ofBitVec_unpackSign (b : BitVec (Float.Model.Format.numBits .binary32)) :
    Sign.ofBitVec (unpackSign b) = signOf (b.toNat / 2 ^ 31 % 2 == 1) := by
  have bit : (unpackSign b).toNat = b.toNat / 2 ^ 31 % 2 := by
    rw [unpackSign, BitVec.toNat_cast, BitVec.extractLsb_toNat, Nat.shiftRight_eq_div_pow]
    rfl
  have two := (unpackSign b).isLt
  simp only [Sign.ofBitVec, signOf, ← bit, ← BitVec.toNat_inj, BitVec.toNat_ofNat, beq_iff_eq]
  split_ifs <;> first | rfl | omega

theorem unpack_of_read {b : BitVec (Float.Model.Format.numBits .binary32)} {negative : Bool}
    {m : ℕ} {e : ℤ} (read : Format.binary32.read b.toNat = .finite negative m e) :
    UnpackedFloat.unpack .binary32 b = formOf negative m e := by
  have mantissa := toNat_unpackMantissa b
  have last : (unpackExponent b = -1#_) ↔ b.toNat / 2 ^ 23 % 2 ^ 8 = 255 := by
    rw [← BitVec.toNat_inj, toNat_unpackExponent]
    rfl
  have first : (unpackExponent b = 0#_) ↔ b.toNat / 2 ^ 23 % 2 ^ 8 = 0 := by
    rw [← BitVec.toNat_inj, toNat_unpackExponent]
    rfl
  have none : (unpackMantissa b = 0#_) ↔ b.toNat % 2 ^ 23 = 0 := by
    rw [← BitVec.toNat_inj, mantissa]
    rfl
  have leading : (1#1 ++ unpackMantissa b).toNat = 2 ^ 23 + b.toNat % 2 ^ 23 := by
    rw [toNat_leadingOne, mantissa]
  have exponent : (unpackExponent b).toNat = b.toNat / 2 ^ 23 % 2 ^ 8 := toNat_unpackExponent b
  have bias : ((Float.Model.Format.exponentBias .binary32 : ℕ) : ℤ) = 127 := rfl
  have bits : ((Float.Model.Format.mantissaBitsWithoutImplicit .binary32 : ℕ) : ℤ) = 23 := rfl
  have least : Format.binary32.leastExponent = -149 := rfl
  have sign : Format.binary32.signBit = 2 ^ 31 := rfl
  have lastField : Format.binary32.lastField = 255 := rfl
  have fractionBits : Format.binary32.fractionBits = 23 := rfl
  have exponentBits : Format.binary32.exponentBits = 8 := rfl
  rw [Format.read] at read
  simp only [Nat.pow_eq, fractionBits, exponentBits, sign, lastField, least] at read
  rw [UnpackedFloat.unpack, formOf]
  simp only [ofBitVec_unpackSign, last, first, none, mantissa, leading, exponent, bias, bits]
  split_ifs at read with infinite fraction subnormal
  · cases read
    rw [if_neg infinite, if_pos subnormal]
    simp only [subnormal]
    rfl
  · cases read
    rw [if_neg infinite, if_neg subnormal, dif_neg (by omega)]
    congr 1
    omega

theorem Shaped.canonical {s : Sign} {m : ℕ} {e : ℤ} {positive : 0 < m}
    (shaped : Shaped (.finite s m e positive)) (below : e ≤ 104) :
    Format.binary32.Canonical m (e + 149).toNat := by
  obtain ⟨short, least, leading⟩ := (shaped_finite_iff _).1 shaped
  refine ⟨?_, fun above => leading (by omega), ?_⟩
  · change m < 2 * 2 ^ 23
    omega
  · change _ < 256
    omega

theorem formOf_of_ne_zero (negative : Bool) {m : ℕ} (e : ℤ) (positive : 0 < m) :
    formOf negative m e = .finite (signOf negative) m e positive := dif_neg positive.ne'

theorem exists_signOf (s : Sign) : ∃ negative, signOf negative = s := by
  cases s
  · exact ⟨true, rfl⟩
  · exact ⟨false, rfl⟩

theorem formValue_eq (negative : Bool) (m : ℕ) (e : ℤ) :
    formValue (formOf negative m e) = (signOf negative).apply m * 2 ^ e := by
  rw [formOf]
  split_ifs with none
  · rw [none, formValue_zero, apply_natCast, Nat.cast_zero, mul_zero, zero_mul]
  · rfl

theorem abs_apply (s : Sign) (m : ℕ) : |(s.apply m : ℚ)| = m := by
  cases s <;> simp [Sign.apply]

theorem Shaped.exponent_le {s : Sign} {m : ℕ} {e : ℤ} {positive : 0 < m}
    (shaped : Shaped (.finite s m e positive))
    (small : |formValue (.finite s m e positive)| < 2 ^ (128 : ℤ)) : e ≤ 104 := by
  obtain ⟨short, least, leading⟩ := (shaped_finite_iff _).1 shaped
  by_contra above
  have long : (2 : ℚ) ^ (23 : ℤ) ≤ m := by exact_mod_cast leading (by omega)
  rw [formValue_finite, abs_mul, abs_apply, abs_of_pos (two_zpow_pos e)] at small
  have : (2 : ℚ) ^ (128 : ℤ) ≤ m * 2 ^ e := by
    calc (2 : ℚ) ^ (128 : ℤ) ≤ 2 ^ (23 + e) := zpow_le_zpow_right₀ (by norm_num) (by omega)
      _ = 2 ^ (23 : ℤ) * 2 ^ e := zpow_add₀ (by norm_num) _ _
      _ ≤ m * 2 ^ e := mul_le_mul_of_nonneg_right long (two_zpow_pos e).le
  exact absurd small (not_lt.2 this)

theorem Shaped.unpack_pack {u : UnpackedFloat} (shaped : Shaped u)
    (small : |formValue u| < 2 ^ (128 : ℤ)) :
    UnpackedFloat.unpack .binary32 (UnpackedFloat.pack .binary32 u) = u := by
  cases u with
  | infinity s => nomatch shaped
  | notANumber => nomatch shaped
  | zero s => cases s <;> rfl
  | finite s m e positive =>
    have below := shaped.exponent_le small
    have canonical := shaped.canonical below
    obtain ⟨negative, rfl⟩ := exists_signOf s
    have least : Format.binary32.leastExponent + ((e + 149).toNat : ℤ) = e := by
      have : Format.binary32.leastExponent = -149 := rfl
      have := ((shaped_finite_iff _).1 shaped).2.1
      omega
    have bound : Format.binary32.pattern negative m (e + 149).toNat < 2 ^ 32 :=
      canonical.pattern_lt negative
    have read := canonical.read_pattern negative
    rw [least] at read
    let b : BitVec (Float.Model.Format.numBits .binary32) :=
      .ofNat _ (Format.binary32.pattern negative m (e + 149).toNat)
    have toNat : b.toNat = Format.binary32.pattern negative m (e + 149).toNat := by
      rw [BitVec.toNat_ofNat]
      exact Nat.mod_eq_of_lt bound
    rw [← toNat] at read
    have form := unpack_of_read read
    rw [formOf_of_ne_zero negative e positive] at form
    have packed := pack_unpack_of_number .binary32 (by decide) b (by rw [form]; nofun)
    rw [form] at packed
    rw [packed, form]

/-- A finite float with its number. -/
structure Stands (x : Float32) (q : ℚ) : Prop where
  shaped : Shaped (unpacked x)
  value : formValue (unpacked x) = q
  small : |q| < 2 ^ (128 : ℤ)

theorem Stands.fits {x : Float32} {q : ℚ} (stands : Stands x q) : Fits q :=
  stands.value ▸ stands.shaped.fits

theorem Stands.unique {x : Float32} {q r : ℚ} (first : Stands x q) (second : Stands x r) : q = r :=
  first.value.symm.trans second.value

theorem stands_of_reading {x : Float32} {negative : Bool} {m place : ℕ}
    (canonical : Format.binary32.Canonical m place)
    (read : reading x = .finite negative m (-149 + place)) :
    Stands x ((signOf negative).apply m * 2 ^ (-149 + place : ℤ)) := by
  have form := unpack_of_read (b := x.toBits.toBitVec) read
  have lt : m < 2 * 2 ^ 23 := canonical.lt
  have below : place + 2 < 256 := canonical.place_lt
  refine ⟨?_, ?_, ?_⟩
  · rw [unpacked, form, formOf]
    split_ifs with none
    · exact .zero _
    · exact .finite _ _ (by omega) (by omega) fun above => canonical.leading (by omega)
  · rw [unpacked, form, formValue_eq]
  · rw [abs_mul, abs_apply, abs_of_pos (two_zpow_pos _)]
    have short : (m : ℚ) < 2 ^ (24 : ℤ) := by
      have : m < 2 ^ 24 := by omega
      exact_mod_cast this
    calc (m : ℚ) * 2 ^ (-149 + place : ℤ) < 2 ^ (24 : ℤ) * 2 ^ (-149 + place : ℤ) :=
          mul_lt_mul_of_pos_right short (two_zpow_pos _)
      _ = 2 ^ (24 + (-149 + place) : ℤ) := (zpow_add₀ (by norm_num) _ _).symm
      _ ≤ 2 ^ (128 : ℤ) := zpow_le_zpow_right₀ (by norm_num) (by omega)

theorem exists_stands {x : Float32} (finite : x.isFinite = true) : ∃ q, Stands x q := by
  obtain ⟨negative, m, place, canonical, read, -⟩ := reading_of_finite finite
  exact ⟨_, stands_of_reading canonical read⟩

theorem Stands.isFinite {x : Float32} {q : ℚ} (stands : Stands x q) : x.isFinite = true := by
  change (unpacked x).isFinite = true
  have shaped := stands.shaped
  generalize unpacked x = u at shaped
  cases shaped <;> rfl

theorem stands_of_rounds {x : Float32} {u : UnpackedFloat} {q : ℚ}
    (packed : x.toBits.toBitVec = UnpackedFloat.pack .binary32 u) (rounds : Rounds u q)
    (small : |q| ≤ 2 ^ (127 : ℤ)) : Stands x (nearest q) := by
  have bounded : |nearest q| < 2 ^ (128 : ℤ) := by
    rw [abs_nearest]
    calc nearest |q| ≤ 2 ^ (127 : ℤ) := nearest_le (fits_two_zpow (by norm_num)) small
      _ < 2 ^ (128 : ℤ) := zpow_lt_zpow_right₀ (by norm_num) (by norm_num)
  have form : unpacked x = u := by
    rw [unpacked, packed]
    exact rounds.shaped.unpack_pack (by rwa [rounds.value])
  exact ⟨form ▸ rounds.shaped, form ▸ rounds.value, bounded⟩

theorem Rounds.zero (s : Sign) : Rounds (.zero s) 0 := ⟨.zero s, nearest_zero.symm⟩

theorem Shaped.neg {u : UnpackedFloat} (shaped : Shaped u) : Shaped u.neg := by
  cases shaped with
  | zero s => exact .zero _
  | finite s positive short least leading => exact .finite _ positive short least leading

theorem apply_neg (s : Sign) (n : ℤ) : (-s).apply n = -s.apply n := by
  cases s with
  | negative => exact (neg_neg n).symm
  | positive => rfl

theorem formValue_neg (u : UnpackedFloat) : formValue u.neg = -formValue u := by
  cases u with
  | finite s m e positive =>
    change ((-s).apply m : ℚ) * 2 ^ e = -(s.apply m * 2 ^ e)
    rw [apply_neg, Int.cast_neg, neg_mul]
  | zero | infinity | notANumber => exact neg_zero.symm

theorem decreaseExponent_eq {m : ℕ} {e target : ℤ} (le : target ≤ e) (s : Sign) :
    (s.apply (decreaseExponent m e target).1 : ℚ) * 2 ^ target = s.apply m * 2 ^ e := by
  rw [zpow_add_toNat le, decreaseExponent, Nat.shiftLeft_eq, apply_natCast, apply_natCast]
  push_cast
  ring

variable {u v : UnpackedFloat}

theorem add_rounds (first : Shaped u) (second : Shaped v) :
    Rounds (UnpackedFloat.add .binary32 u v) (formValue u + formValue v) := by
  cases first with
  | zero s =>
    rw [formValue_zero, zero_add]
    cases second with
    | zero t =>
      simp only [UnpackedFloat.add]
      split_ifs <;> exact .zero _
    | finite t positive short least leading =>
      exact (Shaped.finite t positive short least leading).rounds
  | @finite s m e positive short least leading =>
    cases second with
    | zero t =>
      rw [formValue_zero, add_zero]
      exact (Shaped.finite s positive short least leading).rounds
    | @finite t m' e' positive' short' least' leading' =>
      have rounds := normalize_rounds (s.apply (decreaseExponent m e (min e e')).1
        + t.apply (decreaseExponent m' e' (min e e')).1) (min e e') .positive
      rw [Int.cast_add, add_mul, decreaseExponent_eq (min_le_left _ _),
        decreaseExponent_eq (min_le_right _ _)] at rounds
      exact rounds

theorem sub_rounds (first : Shaped u) (second : Shaped v) :
    Rounds (UnpackedFloat.sub .binary32 u v) (formValue u - formValue v) := by
  cases first with
  | zero s =>
    rw [formValue_zero, zero_sub]
    cases second with
    | zero t =>
      rw [formValue_zero, neg_zero]
      simp only [UnpackedFloat.sub]
      split_ifs <;> exact .zero _
    | finite t positive short least leading =>
      rw [← formValue_neg]
      exact (Shaped.finite t positive short least leading).neg.rounds
  | @finite s m e positive short least leading =>
    cases second with
    | zero t =>
      rw [formValue_zero, sub_zero]
      exact (Shaped.finite s positive short least leading).rounds
    | @finite t m' e' positive' short' least' leading' =>
      have rounds := normalize_rounds (s.apply (decreaseExponent m e (min e e')).1
        - t.apply (decreaseExponent m' e' (min e e')).1) (min e e') .positive
      rw [Int.cast_sub, sub_mul, decreaseExponent_eq (min_le_left _ _),
        decreaseExponent_eq (min_le_right _ _)] at rounds
      exact rounds

theorem sign_mul (s t : Sign) : ((s * t).apply 1 : ℚ) = s.apply 1 * t.apply 1 := by
  have : (s * t).apply 1 = s.apply 1 * t.apply 1 := by cases s <;> cases t <;> rfl
  exact_mod_cast this

theorem sign_div (s t : Sign) : ((s / t).apply 1 : ℚ) = s.apply 1 / t.apply 1 := by
  have : (s / t).apply 1 = s.apply 1 * t.apply 1 := by cases s <;> cases t <;> rfl
  rw [this]
  cases s <;> cases t <;> norm_num [Sign.apply]

/-- A product of significands is long enough, unless it is below the least place anyway. -/
theorem mul_fine {m m' : ℕ} {e e' : ℤ} (positive : 0 < m) (positive' : 0 < m')
    (leading : -149 < e → 2 ^ 23 ≤ m) (leading' : -149 < e' → 2 ^ 23 ≤ m') :
    e + e' ≤ place (((m * m' : ℕ) : ℚ) * 2 ^ (e + e')) := by
  have some : 0 < m * m' := Nat.mul_pos positive positive'
  have scaled : (0 : ℚ) < (m * m' : ℕ) * 2 ^ (e + e') :=
    mul_pos (by exact_mod_cast some) (two_zpow_pos _)
  rw [place, abs_of_pos scaled, log_mul_zpow _ some ⟨le_rfl, by linarith⟩]
  by_cases low : e + e' ≤ -149
  · exact low.trans (le_max_right _ _)
  · have long : 2 ^ 23 ≤ m * m' := by
      by_cases normal : -149 < e
      · exact (leading normal).trans (Nat.le_mul_of_pos_right m positive')
      · exact (leading' (by omega)).trans (Nat.le_mul_of_pos_left m' positive)
    have := (Nat.le_log2 some.ne').2 long
    omega

theorem mul_rounds (first : Shaped u) (second : Shaped v) :
    Rounds (UnpackedFloat.mul .binary32 u v) (formValue u * formValue v) := by
  cases first with
  | zero s =>
    rw [formValue_zero, zero_mul]
    cases second <;> exact .zero _
  | @finite s m e positive short least leading =>
    cases second with
    | zero t =>
      rw [formValue_zero, mul_zero]
      exact .zero _
    | @finite t m' e' positive' short' least' leading' =>
      have some : (0 : ℚ) < (m * m' : ℕ) := by exact_mod_cast Nat.mul_pos positive positive'
      have rounds := roundWithAccuracy_rounds (s * t) some (shows_exact _)
        (mul_fine positive positive' leading leading')
      have product : formValue (.finite s m e positive) * formValue (.finite t m' e' positive')
          = (s * t).apply 1 * (((m * m' : ℕ) : ℚ) * 2 ^ (e + e')) := by
        rw [formValue_finite, formValue_finite, apply_natCast s, apply_natCast t, sign_mul,
          zpow_add₀ (by norm_num)]
        push_cast
        ring
      rw [product]
      exact rounds

/-- Quotients are cut off at or behind the last place of the result. -/
theorem div_fine {m m' : ℕ} (e e' : ℤ) (positive : 0 < m) (positive' : 0 < m') :
    Float.Model.Format.targetExponent .binary32 (totalExponent m e - totalExponent m' e')
      ≤ place ((m : ℚ) / m' * 2 ^ (e - e')) := by
  have some' : (0 : ℚ) < m' := by exact_mod_cast positive'
  have quotient : 0 < (m : ℚ) / m' * 2 ^ (e - e') :=
    mul_pos (div_pos (by exact_mod_cast positive) some') (two_zpow_pos _)
  have low : (2 : ℚ) ^ (m.log2 : ℤ) ≤ m := by
    exact_mod_cast Nat.log2_self_le positive.ne'
  have high : (m' : ℚ) ≤ 2 ^ (m'.log2 + 1 : ℤ) := by
    exact_mod_cast (Nat.lt_log2_self (n := m')).le
  have least : (2 : ℚ) ^ ((m.log2 : ℤ) - (m'.log2 + 1) + (e - e')) ≤ m / m' * 2 ^ (e - e') := by
    rw [zpow_add₀ (by norm_num), zpow_sub₀ (by norm_num)]
    exact mul_le_mul_of_nonneg_right
      (div_le_div₀ (by positivity) low some' high) (two_zpow_pos _).le
  have log : (m.log2 : ℤ) - (m'.log2 + 1) + (e - e') ≤ Int.log 2 (m / m' * 2 ^ (e - e') : ℚ) :=
    (Int.zpow_le_iff_le_log (by norm_num) quotient).1 least
  have bits : Float.Model.Format.mantissaBits .binary32 = 24 := rfl
  have minimum : Float.Model.Format.minExponent .binary32 = -149 := rfl
  rw [place, abs_of_pos quotient, Float.Model.Format.targetExponent, totalExponent, totalExponent,
    bits, minimum]
  apply max_le_max _ le_rfl
  omega

theorem div_rounds (first : Shaped u) (second : Shaped v) (nonzero : formValue v ≠ 0) :
    Rounds (UnpackedFloat.div .binary32 u v) (formValue u / formValue v) := by
  cases second with
  | zero t => exact absurd (formValue_zero t) nonzero
  | @finite t m' e' positive' short' least' leading' =>
    cases first with
    | zero s =>
      rw [formValue_zero, zero_div]
      exact .zero _
    | @finite s m e positive short least leading =>
      have some : (0 : ℚ) < m := by exact_mod_cast positive
      have some' : (0 : ℚ) < m' := by exact_mod_cast positive'
      set target := min (e - e')
        (Float.Model.Format.targetExponent .binary32 (totalExponent m e - totalExponent m' e'))
        with hTarget
      have lowered : ((m <<< (e - e' - target).toNat : ℕ) : ℚ) / m' * 2 ^ target
          = m / m' * 2 ^ (e - e') := by
        rw [zpow_add_toNat (show target ≤ e - e' from min_le_left _ _), Nat.shiftLeft_eq]
        push_cast
        ring
      have raised : (0 : ℚ) < (m <<< (e - e' - target).toNat : ℕ) / m' := by
        rw [Nat.shiftLeft_eq]
        push_cast
        positivity
      have rounds := roundWithAccuracy_rounds (s / t) raised (shows_quotient _ positive')
        (by rw [lowered]; exact (min_le_right _ _).trans (div_fine e e' positive positive'))
      have quotient : formValue (.finite s m e positive) / formValue (.finite t m' e' positive')
          = (s / t).apply 1 * (m / m' * 2 ^ (e - e')) := by
        rw [formValue_finite, formValue_finite, apply_natCast s, apply_natCast t, sign_div,
          zpow_sub₀ (by norm_num)]
        ring
      rw [quotient, ← lowered]
      exact rounds

theorem lt_of_exponent_lt {m m' : ℕ} {e e' : ℤ} (short : m < 2 ^ 24) (least : -149 ≤ e)
    (leading' : -149 < e' → 2 ^ 23 ≤ m') (lt : e < e') : (m : ℚ) * 2 ^ e < m' * 2 ^ e' := by
  have long : (2 : ℚ) ^ (23 : ℤ) ≤ m' := by exact_mod_cast leading' (by omega)
  calc (m : ℚ) * 2 ^ e < 2 ^ (24 : ℤ) * 2 ^ e :=
        mul_lt_mul_of_pos_right (by exact_mod_cast short) (two_zpow_pos e)
    _ = 2 ^ (24 + e) := (zpow_add₀ (by norm_num) _ _).symm
    _ ≤ 2 ^ (23 + e') := zpow_le_zpow_right₀ (by norm_num) (by omega)
    _ = 2 ^ (23 : ℤ) * 2 ^ e' := zpow_add₀ (by norm_num) _ _
    _ ≤ m' * 2 ^ e' := mul_le_mul_of_nonneg_right long (two_zpow_pos e').le

theorem compare_then_eq {m m' : ℕ} {e e' : ℤ} (short : m < 2 ^ 24) (least : -149 ≤ e)
    (leading : -149 < e → 2 ^ 23 ≤ m) (short' : m' < 2 ^ 24) (least' : -149 ≤ e')
    (leading' : -149 < e' → 2 ^ 23 ≤ m') :
    (compare e e').then (compare m m') = compare ((m : ℚ) * 2 ^ e) (m' * 2 ^ e') := by
  rcases lt_trichotomy e e' with lt | rfl | gt
  · rw [compare_lt_iff_lt.2 lt, compare_lt_iff_lt.2 (lt_of_exponent_lt short least leading' lt)]
    rfl
  · have scale := two_zpow_pos e
    rw [compare_eq_iff_eq.2 rfl]
    change compare m m' = _
    rcases lt_trichotomy m m' with lt | rfl | gt
    · rw [compare_lt_iff_lt.2 lt, compare_lt_iff_lt.2]
      exact mul_lt_mul_of_pos_right (by exact_mod_cast lt) scale
    · rw [compare_eq_iff_eq.2 rfl, compare_eq_iff_eq.2 rfl]
    · rw [compare_gt_iff_gt.2 gt, compare_gt_iff_gt.2]
      exact mul_lt_mul_of_pos_right (by exact_mod_cast gt) scale
  · rw [compare_gt_iff_gt.2 gt, compare_gt_iff_gt.2 (lt_of_exponent_lt short' least' leading gt)]
    rfl

theorem compare_neg (a b : ℚ) : compare (-a) (-b) = (compare a b).swap := by
  rcases lt_trichotomy a b with lt | rfl | gt
  · rw [compare_lt_iff_lt.2 lt, compare_gt_iff_gt.2 (neg_lt_neg lt)]; rfl
  · rw [compare_eq_iff_eq.2 rfl, compare_eq_iff_eq.2 rfl]; rfl
  · rw [compare_gt_iff_gt.2 gt, compare_lt_iff_lt.2 (neg_lt_neg gt)]; rfl

theorem formValue_positive {m : ℕ} (e : ℤ) (positive : 0 < m) :
    formValue (.finite .positive m e positive) = m * 2 ^ e := by
  rw [formValue_finite, Sign.apply, Int.cast_natCast]

theorem formValue_negative {m : ℕ} (e : ℤ) (positive : 0 < m) :
    formValue (.finite .negative m e positive) = -(m * 2 ^ e) := by
  rw [formValue_finite, Sign.apply, Int.cast_neg, Int.cast_natCast, neg_mul]

theorem compare_eq (first : Shaped u) (second : Shaped v) :
    UnpackedFloat.compare u v = some (compare (formValue u) (formValue v)) := by
  have scaled : ∀ {m : ℕ} (e : ℤ), 0 < m → (0 : ℚ) < m * 2 ^ e := fun e positive =>
    mul_pos (by exact_mod_cast positive) (two_zpow_pos e)
  cases first with
  | zero s =>
    cases second with
    | zero t => rw [formValue_zero, formValue_zero, compare_eq_iff_eq.2 rfl]; rfl
    | @finite t m' e' positive' short' least' leading' =>
      have above := scaled e' positive'
      cases t
      · rw [formValue_zero, formValue_negative, compare_gt_iff_gt.2 (by linarith)]; rfl
      · rw [formValue_zero, formValue_positive, compare_lt_iff_lt.2 above]; rfl
  | @finite s m e positive short least leading =>
    have some := scaled e positive
    cases second with
    | zero t =>
      cases s
      · rw [formValue_zero, formValue_negative, compare_lt_iff_lt.2 (by linarith)]; rfl
      · rw [formValue_zero, formValue_positive, compare_gt_iff_gt.2 some]; rfl
    | @finite t m' e' positive' short' least' leading' =>
      have some' := scaled e' positive'
      have same := compare_then_eq short least leading short' least' leading'
      cases s <;> cases t
      · rw [formValue_negative, formValue_negative, compare_neg, ← same]; rfl
      · rw [formValue_negative, formValue_positive, compare_lt_iff_lt.2 (by linarith)]; rfl
      · rw [formValue_negative, formValue_positive, compare_gt_iff_gt.2 (by linarith)]; rfl
      · rw [formValue_positive, formValue_positive, ← same]; rfl

namespace Stands
variable {x y : Float32} {p q : ℚ}

theorem add (first : Stands x p) (second : Stands y q) (small : |p + q| ≤ 2 ^ (127 : ℤ)) :
    Stands (x + y) (nearest (p + q)) := by
  have rounds := add_rounds first.shaped second.shaped
  rw [first.value, second.value] at rounds
  exact stands_of_rounds rfl rounds small

theorem sub (first : Stands x p) (second : Stands y q) (small : |p - q| ≤ 2 ^ (127 : ℤ)) :
    Stands (x - y) (nearest (p - q)) := by
  have rounds := sub_rounds first.shaped second.shaped
  rw [first.value, second.value] at rounds
  exact stands_of_rounds rfl rounds small

theorem mul (first : Stands x p) (second : Stands y q) (small : |p * q| ≤ 2 ^ (127 : ℤ)) :
    Stands (x * y) (nearest (p * q)) := by
  have rounds := mul_rounds first.shaped second.shaped
  rw [first.value, second.value] at rounds
  exact stands_of_rounds rfl rounds small

theorem div (first : Stands x p) (second : Stands y q) (nonzero : q ≠ 0)
    (small : |p / q| ≤ 2 ^ (127 : ℤ)) : Stands (x / y) (nearest (p / q)) := by
  have rounds := div_rounds first.shaped second.shaped (second.value ▸ nonzero)
  rw [first.value, second.value] at rounds
  exact stands_of_rounds rfl rounds small

theorem neg (stands : Stands x p) : Stands (-x) (-p) := by
  have form : unpacked (-x) = (unpacked x).neg := by
    apply stands.shaped.neg.unpack_pack
    rw [formValue_neg, abs_neg, stands.value]
    exact stands.small
  refine ⟨form ▸ stands.shaped.neg, ?_, by rw [abs_neg]; exact stands.small⟩
  rw [form, formValue_neg, stands.value]

theorem lt_iff (first : Stands x p) (second : Stands y q) : x < y ↔ p < q := by
  have order := compare_eq first.shaped second.shaped
  rw [first.value, second.value] at order
  change decide (UnpackedFloat.lt (unpacked x) (unpacked y) = true) = true ↔ _
  rw [decide_eq_true_iff, UnpackedFloat.lt, order, beq_iff_eq, Option.some_inj, compare_lt_iff_lt]

theorem le_iff (first : Stands x p) (second : Stands y q) : x ≤ y ↔ p ≤ q := by
  have order := compare_eq first.shaped second.shaped
  rw [first.value, second.value] at order
  change decide (UnpackedFloat.le (unpacked x) (unpacked y) = true) = true ↔ _
  rw [decide_eq_true_iff, UnpackedFloat.le, order, Option.any_some, Ordering.isLE_iff_ne_gt]
  exact compare_le_iff_le

theorem abs (stands : Stands x p) : Stands x.abs |p| := by
  have positive : Shaped (unpacked x).abs ∧ formValue (unpacked x).abs = |p| := by
    have shaped := stands.shaped
    rw [← stands.value]
    generalize unpacked x = u at shaped
    cases shaped with
    | zero s => exact ⟨.zero _, abs_zero.symm⟩
    | @finite s m e positive short least leading =>
      refine ⟨.finite _ positive short least leading, ?_⟩
      rw [formValue_finite s, abs_mul, abs_apply, abs_of_pos (two_zpow_pos e)]
      exact formValue_positive e positive
  have form : unpacked x.abs = (unpacked x).abs := by
    apply positive.1.unpack_pack
    rw [positive.2, abs_abs]
    exact stands.small
  exact ⟨form ▸ positive.1, form ▸ positive.2, by rw [abs_abs]; exact stands.small⟩

end Stands

end MeshFlow.Number
