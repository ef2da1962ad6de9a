import Mathlib
import MeshFlow.Number.Convert

set_option autoImplicit false

/-!
# Floats and their bit patterns

A finite float is the float of its pattern, and a finite pattern is that of its float. In between
stands the unpacked form that arithmetic works on; packing undoes unpacking. Floats are equal as
numbers if they have one pattern and are numbers at all, or if they are the two zeros.
-/
namespace MeshFlow.Number
open Float.Model Float.Model.UnpackedFloat

section
variable {spec : Float.Model.Format}

theorem toBitVec_ofBitVec (s : BitVec 1) : (Sign.ofBitVec s).toBitVec = s := by
  rw [Sign.ofBitVec]
  split
  · rename_i positive
    exact positive.symm
  · rename_i negative
    have : s = 1#1 := by
      have bound := s.isLt
      apply BitVec.eq_of_toNat_eq
      have : s.toNat ≠ 0 := fun zero => negative (BitVec.eq_of_toNat_eq zero)
      simp only [BitVec.toNat_ofNat]
      omega
    rw [this]
    rfl

theorem packComponents_unpack (b : BitVec spec.numBits) :
    packComponents spec (Sign.ofBitVec (unpackSign b)) (unpackExponent b) (unpackMantissa b)
      = b := by
  have mantissa := spec.hm
  have exponent := spec.he
  rw [packComponents, toBitVec_ofBitVec]
  ext i hi
  simp only [unpackSign, unpackExponent, unpackMantissa, BitVec.extractLsb]
  grind

theorem toNat_lt_of_ne_allOnes {n : Nat} {v : BitVec n} (h : v ≠ -1#n) : v.toNat + 1 < 2 ^ n := by
  have bound := v.isLt
  have : v.toNat ≠ 2 ^ n - 1 := by
    intro same
    apply h
    apply BitVec.eq_of_toNat_eq
    rw [BitVec.neg_one_eq_allOnes, BitVec.toNat_allOnes, same]
  omega

theorem toNat_leadingOne {n : Nat} (v : BitVec n) : (1#1 ++ v).toNat = 2 ^ n + v.toNat := by
  rw [BitVec.toNat_append, ← Nat.shiftLeft_add_eq_or_of_lt v.isLt, Nat.shiftLeft_eq]
  simp

theorem log2_eq_of_bounds {m n : Nat} (low : 2 ^ n ≤ m) (high : m < 2 ^ (n + 1)) : m.log2 = n := by
  have positive := Nat.two_pow_pos n
  exact (Nat.log2_eq_iff (by omega)).2 ⟨low, high⟩

theorem pack_unpack (spec : Float.Model.Format) (wide : 1 < spec.exponentBits) (b : BitVec spec.numBits)
    (finite : unpackExponent b ≠ -1#_) :
    UnpackedFloat.pack spec (UnpackedFloat.unpack spec b) = b := by
  have whole := packComponents_unpack b
  have below := toNat_lt_of_ne_allOnes finite
  have fraction := (unpackMantissa b).isLt
  have four : 2 ^ 2 ≤ 2 ^ spec.exponentBits := Nat.pow_le_pow_right (by omega) wide
  have width : spec.mantissaBits = 1 + spec.mantissaBitsWithoutImplicit := rfl
  rw [UnpackedFloat.unpack]
  simp only [finite, if_false]
  split
  · rename_i zeroField
    have field : (unpackExponent b).toNat = 0 := by rw [zeroField]; simp
    split
    · rename_i zeroFraction
      rw [zeroField, zeroFraction] at whole
      exact whole
    · rename_i positive
      have small : (unpackMantissa b).toNat.log2 < spec.mantissaBitsWithoutImplicit :=
        (Nat.log2_lt fun zero => positive (BitVec.eq_of_toNat_eq (by simpa using zero))).2 fraction
      have biased : (((unpackExponent b).toNat : Int)
          - (spec.exponentBias + spec.mantissaBitsWithoutImplicit) + 1 + spec.exponentBias
          + spec.mantissaBitsWithoutImplicit).toNat = 1 := by omega
      rw [UnpackedFloat.pack]
      simp only [biased]
      rw [if_neg (by omega), if_neg (by omega), BitVec.ofNat_toNat, BitVec.setWidth_eq]
      rw [zeroField] at whole
      exact whole
  · have leading := toNat_leadingOne (unpackMantissa b)
    have exact : (1#1 ++ unpackMantissa b).toNat.log2 = spec.mantissaBitsWithoutImplicit := by
      apply log2_eq_of_bounds
      · omega
      · rw [Nat.pow_succ]
        omega
    have biased : (((unpackExponent b).toNat : Int)
        - (spec.exponentBias + spec.mantissaBitsWithoutImplicit) + spec.exponentBias
        + spec.mantissaBitsWithoutImplicit).toNat = (unpackExponent b).toNat := by omega
    rw [UnpackedFloat.pack]
    simp only [biased, exact]
    rw [if_neg (by omega), if_pos (by omega), BitVec.ofNat_toNat, BitVec.setWidth_eq, leading]
    have dropped : BitVec.ofNat spec.mantissaBitsWithoutImplicit
        (2 ^ spec.mantissaBitsWithoutImplicit + (unpackMantissa b).toNat) = unpackMantissa b := by
      apply BitVec.eq_of_toNat_eq
      rw [BitVec.toNat_ofNat, Nat.add_mod_left, Nat.mod_eq_of_lt fraction]
    rw [dropped]
    exact whole

theorem pack_unpack_of_number (spec : Float.Model.Format) (wide : 1 < spec.exponentBits)
    (b : BitVec spec.numBits) (number : UnpackedFloat.unpack spec b ≠ .notANumber) :
    UnpackedFloat.pack spec (UnpackedFloat.unpack spec b) = b := by
  by_cases last : unpackExponent b = -1#_
  · have whole := packComponents_unpack b
    have unpacked : UnpackedFloat.unpack spec b = if unpackMantissa b = 0#_
        then .infinity (Sign.ofBitVec (unpackSign b)) else .notANumber := by
      rw [UnpackedFloat.unpack]
      simp only [last, if_true]
    rw [unpacked] at number ⊢
    split at number
    · rename_i fraction
      rw [last, fraction] at whole
      rw [if_pos fraction]
      exact whole
    · exact absurd rfl number
  · exact pack_unpack spec wide b last

theorem compare_sign_eq_iff (s t : Sign) : compare s t = .eq ↔ s = t := by
  cases s <;> cases t <;> first | exact iff_of_true rfl rfl | exact ⟨nofun, nofun⟩

theorem compare_eq_iff (u v : UnpackedFloat) : UnpackedFloat.compare u v = some .eq ↔
    u = v ∧ u ≠ .notANumber ∨ (∃ s, u = .zero s) ∧ ∃ s, v = .zero s := by
  cases u with
  | notANumber => simp [UnpackedFloat.compare]
  | infinity s =>
    cases v with
    | infinity t => simp [UnpackedFloat.compare, compare_sign_eq_iff]
    | notANumber | zero | finite => cases s <;> simp [UnpackedFloat.compare]
  | zero s =>
    cases v with
    | zero t => simp [UnpackedFloat.compare]
    | notANumber => simp [UnpackedFloat.compare]
    | infinity t | finite t => cases t <;> simp [UnpackedFloat.compare]
  | finite s m e =>
    cases v with
    | finite t m' e' =>
      cases s <;> cases t <;> simp [UnpackedFloat.compare, Ordering.then_eq_eq, and_comm]
    | notANumber => simp [UnpackedFloat.compare]
    | infinity t => cases t <;> simp [UnpackedFloat.compare]
    | zero => cases s <;> simp [UnpackedFloat.compare]

theorem toNat_unpackExponent (b : BitVec spec.numBits) :
    (unpackExponent b).toNat
      = b.toNat / 2 ^ spec.mantissaBitsWithoutImplicit % 2 ^ spec.exponentBits := by
  have exponent := spec.he
  have width : spec.mantissaBitsWithoutImplicit + spec.exponentBits - 1
      - spec.mantissaBitsWithoutImplicit + 1 = spec.exponentBits := by omega
  rw [unpackExponent, BitVec.toNat_cast, BitVec.extractLsb_toNat, Nat.shiftRight_eq_div_pow, width]

theorem unpackExponent_ne_iff (spec : Float.Model.Format) (b : BitVec spec.numBits) :
    unpackExponent b ≠ -1#_ ↔ b.toNat / 2 ^ spec.mantissaBitsWithoutImplicit
      % 2 ^ spec.exponentBits ≠ 2 ^ spec.exponentBits - 1 := by
  rw [Ne, ← BitVec.toNat_inj, toNat_unpackExponent, BitVec.neg_one_eq_allOnes,
    BitVec.toNat_allOnes]

theorem isFinite_unpack_iff (spec : Float.Model.Format) (b : BitVec spec.numBits) :
    (UnpackedFloat.unpack spec b).isFinite = true ↔ unpackExponent b ≠ -1#_ := by
  rw [UnpackedFloat.unpack]
  by_cases last : unpackExponent b = -1#_
  · simp only [last, if_true]
    split <;> simp [UnpackedFloat.isFinite]
  · simp only [last, if_false]
    split
    · split <;> simp [UnpackedFloat.isFinite, last]
    · simp [UnpackedFloat.isFinite, last]

end

def IsFinitePattern (bits : UInt32) : Prop := bits.toNat / 2 ^ 23 % 2 ^ 8 ≠ 255

def IsFiniteWide (bits : UInt64) : Prop := bits.toNat / 2 ^ 52 % 2 ^ 11 ≠ 2047

theorem isFinite_iff (x : Float32) : x.isFinite = true ↔ IsFinitePattern x.toBits := by
  have exponent := unpackExponent_ne_iff .binary32 x.toBits.toBitVec
  exact (isFinite_unpack_iff .binary32 _).trans exponent

theorem ofBits_toBits {x : Float32} (finite : x.isFinite = true) : Float32.ofBits x.toBits = x := by
  have exponent := (isFinite_unpack_iff .binary32 _).1 finite
  have same := pack_unpack .binary32 (by decide) _ exponent
  obtain ⟨⟨bits, valid⟩⟩ := x
  simp only [Float32.ofBits, Float32.toBits, Float32.Model.ofBits, Float32.Model.pack] at same ⊢
  congr 2
  exact congrArg UInt32.ofBitVec same

theorem toBits_ofBits {bits : UInt64} (finite : IsFiniteWide bits) :
    (Float.ofBits bits).toBits = bits := by
  have exponent := (unpackExponent_ne_iff .binary64 bits.toBitVec).2 finite
  have same := pack_unpack .binary64 (by decide) _ exponent
  exact congrArg UInt64.ofBitVec same

theorem isFinite_ofBits {bits : UInt64} (finite : IsFiniteWide bits) :
    (Float.ofBits bits).isFinite = true := by
  apply (isFinite_unpack_iff .binary64 (Float.ofBits bits).toBits.toBitVec).2
  rw [toBits_ofBits finite]
  exact (unpackExponent_ne_iff .binary64 bits.toBitVec).2 finite

theorem toBits_injective {x y : Float32} (same : x.toBits = y.toBits) : x = y := by
  obtain ⟨⟨bits, valid⟩⟩ := x
  obtain ⟨⟨bits', valid'⟩⟩ := y
  obtain rfl : bits = bits' := same
  rfl

/-- Both zeros, which differ in their signs. -/
def IsZero (x : Float32) : Prop := x.toBits = 0 ∨ x.toBits = 0x80000000

def unpacked (x : Float32) : UnpackedFloat := .unpack .binary32 x.toBits.toBitVec

theorem unpacked_injective {x y : Float32} (same : unpacked x = unpacked y)
    (number : unpacked x ≠ .notANumber) : x = y := by
  have own := pack_unpack_of_number .binary32 (by decide) _ number
  have other := pack_unpack_of_number .binary32 (by decide) _ (same ▸ number)
  have bits : x.toBits.toBitVec = y.toBits.toBitVec := by
    rw [← own, ← other]
    exact congrArg _ same
  exact toBits_injective (UInt32.toBitVec_inj.1 bits)

theorem isZero_iff (x : Float32) : IsZero x ↔ ∃ s, unpacked x = .zero s := by
  constructor
  · rintro (positive | negative)
    · refine ⟨.positive, ?_⟩
      rw [unpacked, positive]
      rfl
    · refine ⟨.negative, ?_⟩
      rw [unpacked, negative]
      rfl
  · rintro ⟨s, zero⟩
    have number : unpacked x ≠ .notANumber := by rw [zero]; nofun
    have packed := pack_unpack_of_number .binary32 (by decide) _ number
    rw [← unpacked, zero] at packed
    cases s with
    | positive => exact .inl (UInt32.toBitVec_inj.1 (packed.symm.trans (by decide)))
    | negative => exact .inr (UInt32.toBitVec_inj.1 (packed.symm.trans (by decide)))

theorem beq_eq_true_iff (x y : Float32) :
    (x == y) = true ↔ x = y ∧ x.isNaN = false ∨ IsZero x ∧ IsZero y := by
  have number : x.isNaN = false ↔ unpacked x ≠ .notANumber := by
    change (unpacked x).isNaN = false ↔ _
    cases unpacked x <;> simp [UnpackedFloat.isNaN]
  have compares : (x == y) = true ↔
      UnpackedFloat.compare (unpacked x) (unpacked y) = some .eq := by
    change (UnpackedFloat.compare (unpacked x) (unpacked y) == some .eq) = true ↔ _
    exact beq_iff_eq
  rw [compares, compare_eq_iff, number, isZero_iff, isZero_iff]
  refine or_congr_left (and_congr_left fun number => ⟨fun same => ?_, congrArg unpacked⟩)
  exact unpacked_injective same number

end MeshFlow.Number
