set_option autoImplicit false

/-!
# Binary floating-point formats, exactly

A bit pattern of a format is read as `± mantissa · 2 ^ exponent`, and an exact number of that
shape is rounded to the nearest pattern, a tie going to the even neighbour. Both work on natural
numbers alone, for every format at once, so conversions between formats and integers are stated
and evaluated without trusting a processor.
-/
namespace MeshFlow.Number

/-- A binary interchange format: the bits stored of the significand and the width of the
exponent field. -/
structure Format where
  fractionBits : Nat
  exponentBits : Nat
  deriving DecidableEq

/-- What a bit pattern stands for; a finite number is `± mantissa · 2 ^ exponent`. -/
inductive Reading where
  | notANumber
  | infinite (negative : Bool)
  | finite (negative : Bool) (mantissa : Nat) (exponent : Int)
  deriving DecidableEq

namespace Format

def binary32 : Format := ⟨23, 8⟩

def binary64 : Format := ⟨52, 11⟩

/-- The exponent of the last place of the smallest numbers. -/
def leastExponent (f : Format) : Int :=
  2 - (Nat.pow 2 (f.exponentBits - 1) : Nat) - f.fractionBits

def lastField (f : Format) : Nat := Nat.pow 2 f.exponentBits - 1

def infinityBits (f : Format) : Nat := f.lastField <<< f.fractionBits

def signBit (f : Format) : Nat := Nat.pow 2 (f.fractionBits + f.exponentBits)

def read (f : Format) (bits : Nat) : Reading :=
  let unit := Nat.pow 2 f.fractionBits
  let fraction := bits % unit
  let field := bits / unit % Nat.pow 2 f.exponentBits
  let negative := bits / f.signBit % 2 == 1
  if field = f.lastField then
    if fraction = 0 then .infinite negative else .notANumber
  else if field = 0 then
    .finite negative fraction f.leastExponent
  else
    .finite negative (unit + fraction) (f.leastExponent + (field - 1 : Nat))

/-- `n / 2 ^ places`, rounded to the nearest integer, a tie to the even one. -/
def shiftRound (n places : Nat) : Nat :=
  let unit := Nat.pow 2 places
  let quotient := n >>> places
  let rest := n % unit
  if unit < 2 * rest ∨ (2 * rest = unit ∧ quotient % 2 = 1) then quotient + 1
  else quotient

/-- The pattern, sign apart, of the number nearest to `mantissa · 2 ^ exponent`. A carry out of the
significand runs into the exponent field, which is what it should do; what is too large is
infinite. -/
def roundMagnitude (f : Format) (mantissa : Nat) (exponent : Int) : Nat :=
  if mantissa = 0 then 0
  else
    let unit := Nat.pow 2 f.fractionBits
    let place := max (exponent + mantissa.log2 - f.fractionBits) f.leastExponent
    let significand :=
      if place ≤ exponent then mantissa <<< (exponent - place).toNat
      else shiftRound mantissa (place - exponent).toNat
    let bits :=
      if significand < unit then significand
      else (place - f.leastExponent).toNat * unit + significand
    min bits f.infinityBits

/-- The pattern of the number nearest to `± mantissa · 2 ^ exponent`; a zero keeps its sign. -/
def round (f : Format) (negative : Bool) (mantissa : Nat) (exponent : Int) : Nat :=
  (if negative then f.signBit else 0) + f.roundMagnitude mantissa exponent

end Format
end MeshFlow.Number
