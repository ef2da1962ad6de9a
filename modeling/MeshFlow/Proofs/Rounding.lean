import Mathlib.Tactic.Ring
import MeshFlow.Proofs.Patterns

set_option autoImplicit false

/-!
# Exact roundings

A finite pattern is a sign, a significand and a place. Reading gives these back, and rounding a
number that has such a pattern gives the pattern, in whichever shape the number is written. So
nothing is lost on the way from single to double precision and back.
-/
namespace MeshFlow.Number.Format

variable {f : Format}

/-- A significand and a place, counted from the least, that a finite pattern has. -/
structure Canonical (f : Format) (mantissa place : Nat) : Prop where
  lt : mantissa < 2 * 2 ^ f.fractionBits
  leading : 0 < place → 2 ^ f.fractionBits ≤ mantissa
  place_lt : place + 2 < 2 ^ f.exponentBits

def pattern (f : Format) (negative : Bool) (mantissa place : Nat) : Nat :=
  (if negative then f.signBit else 0) + (place * 2 ^ f.fractionBits + mantissa)

theorem signBit_eq (f : Format) : f.signBit = 2 ^ f.exponentBits * 2 ^ f.fractionBits := by
  rw [signBit, Nat.pow_eq, Nat.pow_add, Nat.mul_comm]

theorem lastField_eq (f : Format) : f.lastField = 2 ^ f.exponentBits - 1 := rfl

theorem pattern_eq (f : Format) (negative : Bool) (mantissa place : Nat) :
    f.pattern negative mantissa place
      = mantissa + 2 ^ f.fractionBits * ((if negative then 2 ^ f.exponentBits else 0) + place) := by
  rw [pattern, signBit_eq]
  cases negative
  · simp only [Bool.false_eq_true, if_false]
    ring
  · simp only [if_true]
    ring

theorem Canonical.field_cases {mantissa place : Nat} (h : f.Canonical mantissa place) :
    (mantissa < 2 ^ f.fractionBits ∧ place = 0) ∨
      ∃ fraction, fraction < 2 ^ f.fractionBits ∧ mantissa = 2 ^ f.fractionBits + fraction := by
  by_cases small : mantissa < 2 ^ f.fractionBits
  · left
    refine ⟨small, ?_⟩
    by_contra positive
    have := h.leading (by omega)
    omega
  · have lt := h.lt
    exact .inr ⟨mantissa - 2 ^ f.fractionBits, by omega, by omega⟩

theorem read_eq (f : Format) (negative : Bool) {fraction field : Nat}
    (lt : fraction < 2 ^ f.fractionBits) (below : field < 2 ^ f.exponentBits) :
    f.read (fraction + 2 ^ f.fractionBits
        * ((if negative then 2 ^ f.exponentBits else 0) + field)) =
      if field = f.lastField then
        if fraction = 0 then .infinite negative else .notANumber
      else if field = 0 then .finite negative fraction f.leastExponent
      else .finite negative (2 ^ f.fractionBits + fraction)
        (f.leastExponent + (field - 1 : Nat)) := by
  have positive : 0 < 2 ^ f.fractionBits := Nat.two_pow_pos _
  have wide : 0 < 2 ^ f.exponentBits := Nat.two_pow_pos _
  have low : ∀ high, (fraction + 2 ^ f.fractionBits * high) % 2 ^ f.fractionBits = fraction := by
    intro high
    rw [Nat.add_mul_mod_self_left, Nat.mod_eq_of_lt lt]
  have high : ∀ high, (fraction + 2 ^ f.fractionBits * high) / 2 ^ f.fractionBits = high := by
    intro high
    rw [Nat.add_mul_div_left _ _ positive, Nat.div_eq_of_lt lt, Nat.zero_add]
  have exponent : ((if negative then 2 ^ f.exponentBits else 0) + field) % 2 ^ f.exponentBits
      = field := by
    cases negative <;> simp [Nat.mod_eq_of_lt below]
  have sign : (((if negative then 2 ^ f.exponentBits else 0) + field) / 2 ^ f.exponentBits % 2 == 1)
      = negative := by
    cases negative <;> simp [Nat.div_eq_of_lt below, Nat.add_div_left _ wide]
  rw [read]
  simp only [Nat.pow_eq, signBit_eq, Nat.mul_comm (2 ^ f.exponentBits), ← Nat.div_div_eq_div_mul,
    low, high, exponent, sign]

theorem Canonical.read_pattern {mantissa place : Nat} (h : f.Canonical mantissa place)
    (negative : Bool) :
    f.read (f.pattern negative mantissa place)
      = .finite negative mantissa (f.leastExponent + place) := by
  have below := h.place_lt
  have last := f.lastField_eq
  rw [pattern_eq]
  rcases h.field_cases with ⟨small, rfl⟩ | ⟨fraction, small, rfl⟩
  · rw [read_eq f negative small (by omega), if_neg (by omega), if_pos rfl]
    simp
  · have fields : 2 ^ f.fractionBits + fraction
        + 2 ^ f.fractionBits * ((if negative then 2 ^ f.exponentBits else 0) + place)
        = fraction + 2 ^ f.fractionBits
          * ((if negative then 2 ^ f.exponentBits else 0) + (place + 1)) := by ring
    rw [fields, read_eq f negative small (by omega), if_neg (by omega), if_neg (by omega)]
    simp

theorem exists_fields {bits : Nat} (bound : bits < 2 * f.signBit) :
    ∃ (negative : Bool) (fraction field : Nat), fraction < 2 ^ f.fractionBits ∧
      field < 2 ^ f.exponentBits ∧ bits = fraction + 2 ^ f.fractionBits
        * ((if negative then 2 ^ f.exponentBits else 0) + field) := by
  have positive : 0 < 2 ^ f.fractionBits := Nat.two_pow_pos _
  have split := Nat.mod_add_div bits (2 ^ f.fractionBits)
  have high : bits / 2 ^ f.fractionBits < 2 * 2 ^ f.exponentBits := by
    rw [Nat.div_lt_iff_lt_mul positive, Nat.mul_assoc, ← signBit_eq]
    exact bound
  have low := Nat.mod_lt bits positive
  by_cases sign : 2 ^ f.exponentBits ≤ bits / 2 ^ f.fractionBits
  · refine ⟨true, _, bits / 2 ^ f.fractionBits - 2 ^ f.exponentBits, low, by omega, ?_⟩
    rw [if_pos rfl, Nat.add_sub_cancel' sign, split]
  · refine ⟨false, _, bits / 2 ^ f.fractionBits, low, by omega, ?_⟩
    rw [if_neg (by simp), Nat.zero_add, split]

theorem canonical_of_read (wide : 1 < f.exponentBits) {bits : Nat} (bound : bits < 2 * f.signBit)
    {negative : Bool} {mantissa : Nat} {exponent : Int}
    (h : f.read bits = .finite negative mantissa exponent) :
    ∃ place : Nat, f.Canonical mantissa place ∧ exponent = f.leastExponent + place ∧
      bits = f.pattern negative mantissa place := by
  have last := f.lastField_eq
  have four : 2 ^ 2 ≤ 2 ^ f.exponentBits := Nat.pow_le_pow_right (by omega) wide
  obtain ⟨sign, fraction, field, low, below, rfl⟩ := exists_fields bound
  rw [read_eq f sign low below] at h
  by_cases infinite : field = f.lastField
  · rw [if_pos infinite] at h
    split at h <;> cases h
  · rw [if_neg infinite] at h
    by_cases subnormal : field = 0
    · rw [if_pos subnormal] at h
      cases h
      refine ⟨0, ⟨by omega, by omega, by omega⟩, by simp, ?_⟩
      rw [pattern_eq, subnormal]
    · rw [if_neg subnormal] at h
      cases h
      obtain ⟨place, rfl⟩ := Nat.exists_eq_succ_of_ne_zero subnormal
      refine ⟨place, ⟨by omega, by omega, by omega⟩, by simp, ?_⟩
      rw [pattern_eq, Nat.succ_eq_add_one]
      ring

theorem Canonical.fields_lt {mantissa place : Nat} (h : f.Canonical mantissa place) :
    place * 2 ^ f.fractionBits + mantissa < (place + 2) * 2 ^ f.fractionBits := by
  have := h.lt
  rw [Nat.add_mul]
  omega

theorem Canonical.pattern_lt {mantissa place : Nat} (h : f.Canonical mantissa place)
    (negative : Bool) : f.pattern negative mantissa place < 2 * f.signBit := by
  have room : place * 2 ^ f.fractionBits + mantissa < 2 ^ f.exponentBits * 2 ^ f.fractionBits := by
    calc place * 2 ^ f.fractionBits + mantissa
        < (place + 2) * 2 ^ f.fractionBits := h.fields_lt
      _ ≤ 2 ^ f.exponentBits * 2 ^ f.fractionBits :=
          Nat.mul_le_mul_right _ (Nat.le_of_lt h.place_lt)
  rw [pattern, signBit_eq]
  split <;> omega

theorem read_finite_iff (f : Format) (bits : Nat) :
    (∃ negative mantissa exponent, f.read bits = .finite negative mantissa exponent) ↔
      bits / 2 ^ f.fractionBits % 2 ^ f.exponentBits ≠ 2 ^ f.exponentBits - 1 := by
  simp only [read, Nat.pow_eq, lastField_eq]
  by_cases infinite : bits / 2 ^ f.fractionBits % 2 ^ f.exponentBits = 2 ^ f.exponentBits - 1
  · simp only [infinite, if_true]
    split <;> simp
  · simp only [infinite, if_false]
    split <;> simp [infinite]

theorem Canonical.log2_le {mantissa place : Nat} (h : f.Canonical mantissa place) :
    mantissa.log2 ≤ f.fractionBits := by
  have lt := h.lt
  rw [← Nat.pow_succ'] at lt
  rcases Nat.eq_zero_or_pos mantissa with rfl | positive
  · simp
  · exact Nat.le_of_lt_succ ((Nat.log2_lt (by omega)).2 lt)

theorem Canonical.place_eq {mantissa place : Nat} (h : f.Canonical mantissa place) :
    max (f.leastExponent + place + mantissa.log2 - f.fractionBits) f.leastExponent
      = f.leastExponent + place := by
  have le := h.log2_le
  rcases Nat.eq_zero_or_pos place with rfl | positive
  · omega
  · have exact : mantissa.log2 = f.fractionBits := by
      apply log2_eq_of_bounds (h.leading positive)
      rw [Nat.pow_succ']
      exact h.lt
    omega

theorem Canonical.magnitude_eq {mantissa place : Nat} (h : f.Canonical mantissa place) :
    min (if mantissa < Nat.pow 2 f.fractionBits then mantissa
        else (f.leastExponent + place - f.leastExponent).toNat * Nat.pow 2 f.fractionBits + mantissa)
      f.infinityBits = place * 2 ^ f.fractionBits + mantissa := by
  have places : (f.leastExponent + (place : Int) - f.leastExponent).toNat = place := by omega
  have joined : (if mantissa < Nat.pow 2 f.fractionBits then mantissa
      else (f.leastExponent + place - f.leastExponent).toNat * Nat.pow 2 f.fractionBits + mantissa)
      = place * 2 ^ f.fractionBits + mantissa := by
    rw [places, Nat.pow_eq]
    rcases h.field_cases with ⟨small, rfl⟩ | ⟨fraction, small, rfl⟩
    · simp
    · rw [if_neg (by omega)]
  have below : place * 2 ^ f.fractionBits + mantissa ≤ f.infinityBits := by
    calc place * 2 ^ f.fractionBits + mantissa
        ≤ (place + 2) * 2 ^ f.fractionBits := Nat.le_of_lt h.fields_lt
      _ ≤ f.lastField * 2 ^ f.fractionBits := by
          have := h.place_lt
          have := f.lastField_eq
          exact Nat.mul_le_mul_right _ (by omega)
      _ = f.infinityBits := by rw [infinityBits, Nat.shiftLeft_eq]
  rw [joined, Nat.min_eq_left below]

theorem log2_mul_pow {m : Nat} (positive : 0 < m) (d : Nat) : (m * 2 ^ d).log2 = m.log2 + d := by
  apply log2_eq_of_bounds
  · rw [Nat.pow_add]
    exact Nat.mul_le_mul_right _ (Nat.log2_self_le (by omega))
  · rw [Nat.add_right_comm, Nat.pow_add]
    exact Nat.mul_lt_mul_of_pos_right Nat.lt_log2_self (Nat.two_pow_pos d)

theorem shiftRound_mul_pow (m d places : Nat) :
    shiftRound (m * 2 ^ d) (places + d) = shiftRound m places := by
  have two : 0 < 2 ^ d := Nat.two_pow_pos d
  have less : 2 ^ places * 2 ^ d < 2 * (m % 2 ^ places * 2 ^ d)
      ↔ 2 ^ places < 2 * (m % 2 ^ places) := by
    rw [← Nat.mul_assoc, Nat.mul_lt_mul_right two]
  have half : 2 * (m % 2 ^ places * 2 ^ d) = 2 ^ places * 2 ^ d
      ↔ 2 * (m % 2 ^ places) = 2 ^ places := by
    rw [← Nat.mul_assoc, Nat.mul_left_inj two.ne']
  rw [shiftRound, shiftRound]
  simp only [Nat.pow_eq, Nat.shiftRight_eq_div_pow, Nat.pow_add, Nat.mul_div_mul_right _ _ two,
    Nat.mul_mod_mul_right, less, half]

theorem shiftRound_zero (m : Nat) : shiftRound m 0 = m := by
  simp [shiftRound, Nat.mod_one]

theorem roundMagnitude_mul_pow (f : Format) (m d : Nat) (exponent : Int) :
    f.roundMagnitude (m * 2 ^ d) (exponent - d) = f.roundMagnitude m exponent := by
  rcases Nat.eq_zero_or_pos m with rfl | positive
  · simp [roundMagnitude]
  have shifted : exponent - d + (m * 2 ^ d).log2 - f.fractionBits
      = exponent + m.log2 - f.fractionBits := by
    rw [log2_mul_pow positive]
    push_cast
    ring
  have significand : ∀ place : Int, (if place ≤ exponent - d then
      (m * 2 ^ d) <<< (exponent - d - place).toNat
      else shiftRound (m * 2 ^ d) (place - (exponent - d)).toNat)
      = if place ≤ exponent then m <<< (exponent - place).toNat
        else shiftRound m (place - exponent).toNat := by
    intro place
    by_cases below : place ≤ exponent
    · rw [if_pos below, Nat.shiftLeft_eq, Nat.shiftLeft_eq]
      split
      · have steps : d + (exponent - d - place).toNat = (exponent - place).toNat := by omega
        rw [Nat.mul_assoc, ← Nat.pow_add, steps]
      -- All that is cut off are zeros of the longer significand.
      · have zeros : m * 2 ^ d
            = m * 2 ^ (exponent - place).toNat * 2 ^ (place - (exponent - d)).toNat := by
          rw [Nat.mul_assoc, ← Nat.pow_add]
          congr 2
          omega
        have cut := shiftRound_mul_pow (m * 2 ^ (exponent - place).toNat)
          (place - (exponent - d)).toNat 0
        rwa [Nat.zero_add, shiftRound_zero, ← zeros] at cut
    · have steps : (place - (exponent - d)).toNat = (place - exponent).toNat + d := by omega
      rw [if_neg below, if_neg (by omega), steps, shiftRound_mul_pow]
  rw [roundMagnitude, roundMagnitude, if_neg (Nat.mul_pos positive (Nat.two_pow_pos d)).ne',
    if_neg positive.ne']
  simp only [shifted, significand]

theorem Canonical.roundMagnitude_eq {mantissa place : Nat} (h : f.Canonical mantissa place) :
    f.roundMagnitude mantissa (f.leastExponent + place)
      = place * 2 ^ f.fractionBits + mantissa := by
  rcases Nat.eq_zero_or_pos mantissa with rfl | positive
  · have least : place = 0 := by
      by_contra above
      have := h.leading (by omega)
      have := Nat.two_pow_pos f.fractionBits
      omega
    simp [least, roundMagnitude]
  · have places : (f.leastExponent + (place : Int) - (f.leastExponent + place)).toNat = 0 := by
      omega
    rw [roundMagnitude, if_neg positive.ne']
    simp only [h.place_eq, le_refl, if_true, places, Nat.shiftLeft_zero]
    exact h.magnitude_eq

/-- A number whose significand is short enough has a pattern of double precision, unless it is too
small or too large; and rounding cannot tell the pattern from the number. -/
theorem exists_wide (negative : Bool) {m : Nat} {exponent : Int} (short : m < 2 ^ 53)
    (low : -1022 ≤ exponent) (high : exponent ≤ 971) :
    ∃ mantissa place, binary64.Canonical mantissa place ∧
      binary64.round negative m exponent = binary64.pattern negative mantissa place ∧
      ∀ f : Format, f.roundMagnitude mantissa (binary64.leastExponent + place)
        = f.roundMagnitude m exponent := by
  rcases Nat.eq_zero_or_pos m with rfl | positive
  · exact ⟨0, 0, ⟨by decide, by simp, by decide⟩, by simp [round, roundMagnitude, pattern],
      fun f => by simp [roundMagnitude]⟩
  -- The significand moves up until its leading bit stands right above the fraction.
  · have length : m.log2 < 53 := (Nat.log2_lt positive.ne').2 short
    obtain ⟨d, hd⟩ : ∃ d, m.log2 + d = 52 := ⟨52 - m.log2, by omega⟩
    have log2 := log2_mul_pow positive d
    have least : binary64.leastExponent = -1074 := by decide
    obtain ⟨place, moved⟩ : ∃ place : Nat, binary64.leastExponent + place = exponent - d :=
      ⟨(exponent - d + 1074).toNat, by omega⟩
    have filled : binary64.Canonical (m * 2 ^ d) place := by
      refine ⟨?_, fun _ => ?_, ?_⟩
      · change _ < 2 * 2 ^ 52
        rw [← Nat.pow_succ', ← hd, ← log2]
        exact Nat.lt_log2_self
      · change 2 ^ 52 ≤ _
        rw [← hd, ← log2]
        exact Nat.log2_self_le (Nat.mul_pos positive (Nat.two_pow_pos d)).ne'
      · change _ < 2048
        omega
    have same : ∀ f : Format, f.roundMagnitude (m * 2 ^ d) (binary64.leastExponent + place)
        = f.roundMagnitude m exponent := fun f => by rw [moved, roundMagnitude_mul_pow]
    refine ⟨_, place, filled, ?_, same⟩
    rw [round, ← same, filled.roundMagnitude_eq]
    rfl

end MeshFlow.Number.Format

namespace MeshFlow.Number
open Format

theorem double_exact (negative : Bool) {m : Nat} {exponent : Int} (short : m < 2 ^ 53)
    (low : -1022 ≤ exponent) (high : exponent ≤ 971) :
    (double negative m exponent).isFinite = true ∧
      narrow (double negative m exponent) = single negative m exponent := by
  obtain ⟨mantissa, place, wide, rounded, same⟩ := exists_wide negative short low high
  have toNat : (UInt64.ofNat (binary64.pattern negative mantissa place)).toNat
      = binary64.pattern negative mantissa place :=
    UInt64.toNat_ofNat_of_lt (wide.pattern_lt negative)
  have read := wide.read_pattern negative
  have finite : IsFiniteWide (.ofNat (binary64.pattern negative mantissa place)) := by
    rw [IsFiniteWide, toNat]
    exact (read_finite_iff binary64 _).1 ⟨_, _, _, read⟩
  rw [double, rounded]
  refine ⟨isFinite_ofBits finite, ?_⟩
  rw [narrow, readingWide, toBits_ofBits finite, toNat, read]
  simp only [single, Format.round, same]

theorem narrow_wideOfInt {i : Int} (short : i.natAbs < 2 ^ 53) : narrow (wideOfInt i) = ofInt i :=
  (double_exact _ short (by decide) (by decide)).2

theorem reading_of_finite {x : Float32} (finite : x.isFinite = true) :
    ∃ negative mantissa place, binary32.Canonical mantissa place ∧
      reading x = .finite negative mantissa (binary32.leastExponent + (place : Nat)) ∧
      x.toBits.toNat = binary32.pattern negative mantissa place := by
  obtain ⟨negative, mantissa, exponent, read⟩ :=
    (read_finite_iff binary32 x.toBits.toNat).2 ((isFinite_iff x).1 finite)
  obtain ⟨place, canonical, rfl, bits⟩ :=
    canonical_of_read (by decide) x.toBits.toNat_lt read
  exact ⟨negative, mantissa, place, canonical, read, bits⟩

theorem widen_exact {x : Float32} (finite : x.isFinite = true) :
    (widen x).isFinite = true ∧ narrow (widen x) = x := by
  obtain ⟨negative, mantissa, place, canonical, read, bits⟩ := reading_of_finite finite
  have least : binary32.leastExponent = -149 := by decide
  have short : mantissa < 2 * 2 ^ 23 := canonical.lt
  have below : place + 2 < 256 := canonical.place_lt
  have low : -1022 ≤ binary32.leastExponent + (place : Int) := by omega
  have high : binary32.leastExponent + (place : Int) ≤ 971 := by omega
  obtain ⟨finiteWide, narrowed⟩ := double_exact negative (m := mantissa) (by omega) low high
  rw [widen, read]
  refine ⟨finiteWide, narrowed.trans ?_⟩
  rw [single, Format.round, canonical.roundMagnitude_eq]
  change Float32.ofBits (.ofNat (binary32.pattern negative mantissa place)) = x
  rw [← bits, UInt32.ofNat_toNat, ofBits_toBits finite]

theorem isFinite_widen {x : Float32} (finite : x.isFinite = true) : (widen x).isFinite = true :=
  (widen_exact finite).1

theorem narrow_widen {x : Float32} (finite : x.isFinite = true) : narrow (widen x) = x :=
  (widen_exact finite).2

end MeshFlow.Number
