import MeshFlow.Json.Basic

set_option autoImplicit false

/-!
# JSON tokens

Numbers and strings, read off the front of a text. An integer of at most 64 bits stays an integer;
every other number becomes a float by scaling its leading digits with one power of ten, which is
the nearest float whenever both are exact and near it otherwise.

Loops over a text run on `fuel`, which a reader sets to more than the characters of its text.
-/
namespace MeshFlow.Json

/-- Every step of the reader takes a value off the front of the text. -/
abbrev Step (α : Type) := List Char → Option (α × List Char)

def isBlank (c : Char) : Bool := c == ' ' || c == '\t' || c == '\n' || c == '\r'

def skipBlanks (cs : List Char) : List Char := cs.dropWhile isBlank

/-! ## Numbers -/

def digitValue (c : Char) : Nat := c.toNat - 48

def largestWord : Nat := 18446744073709551615

/-- Digits taken into a significand of 64 bits; once one does not fit, all further ones are left
out. The result counts the digits that went in and those left out. -/
structure Significand where
  value : Nat
  taken : Nat
  dropped : Nat

def Significand.push (s : Significand) (c : Char) : Significand :=
  let next := s.value * 10 + digitValue c
  if s.dropped = 0 ∧ next ≤ largestWord then ⟨next, s.taken + 1, 0⟩
  else ⟨s.value, s.taken, s.dropped + 1⟩

def powerOfTen (n : Nat) : Float := Float.ofScientific 1 false n

/-- `f / 10 ^ n`, in steps of at most `308` places. -/
def divideByPower : Nat → Float → Nat → Float
  | fuel + 1, f, n =>
    if n ≤ 308 then f / powerOfTen n
    else if f == 0 then f
    else divideByPower fuel (f / powerOfTen 308) (n - 308)
  | 0, f, _ => f

/-- `significand · 10 ^ exponent` as a float; nothing when it is too large. A quotient is zero
after two steps of 308 places at the latest. -/
def scaled (significand : Nat) (exponent : Int) : Option Float :=
  let f := MeshFlow.Number.wideOfInt significand
  if exponent < 0 then some (divideByPower 4 f (-exponent).toNat)
  else if f == 0 then some f
  else if 308 < exponent then none
  else
    let product := f * powerOfTen exponent.toNat
    if product.isFinite then some product else none

def exponentPart : Step Int
  | c :: rest =>
    if c = 'e' ∨ c = 'E' then
      let (negative, rest) := match rest with
        | '-' :: r => (true, r)
        | '+' :: r => (false, r)
        | r => (false, r)
      let digits := rest.takeWhile Char.isDigit
      if digits.isEmpty then none
      else
        let magnitude : Nat := digits.foldl (fun n c => n * 10 + digitValue c) 0
        some (if negative then -(magnitude : Int) else magnitude, rest.dropWhile Char.isDigit)
    else some (0, c :: rest)
  | [] => some (0, [])

def fractionPart : Step (List Char)
  | '.' :: rest =>
    let digits := rest.takeWhile Char.isDigit
    if digits.isEmpty then none else some (digits, rest.dropWhile Char.isDigit)
  | rest => some ([], rest)

def integerPart (cs : List Char) : Option (List Char × List Char) :=
  let digits := cs.takeWhile Char.isDigit
  match digits with
  | [] => none
  | '0' :: _ :: _ => none
  | _ => some (digits, cs.dropWhile Char.isDigit)

/-- The value of an integer token, where 64 bits hold it; minus zero is not an integer. -/
def wordOf? (negative : Bool) (s : Significand) : Option Int :=
  if s.dropped ≠ 0 then none
  else if negative then
    if s.value = 0 ∨ 9223372036854775808 < s.value then none else some (-(s.value : Int))
  else some s.value

def numberToken (negative : Bool) (cs : List Char) : Option (Json.Number × List Char) := do
  let (whole, rest) ← integerPart cs
  let (fraction, rest) ← fractionPart rest
  let hasExponent := match rest with
    | c :: _ => c == 'e' || c == 'E'
    | [] => false
  let (exponent, rest) ← exponentPart rest
  let s := whole.foldl Significand.push ⟨0, 0, 0⟩
  let toFloat (significand : Nat) (exponent : Int) : Option (Json.Number × List Char) := do
    let f ← scaled significand exponent
    return (.float (if negative then -f else f), rest)
  if fraction.isEmpty && !hasExponent then
    match wordOf? negative s with
    | some i => return (.int i, rest)
    | none => toFloat s.value s.dropped
  else
    let t := fraction.foldl Significand.push ⟨s.value, 0, 0⟩
    toFloat t.value (exponent + s.dropped - t.taken)

/-! ## Strings -/

def hexValue? (c : Char) : Option Nat :=
  if c.isDigit then some (c.toNat - 48)
  else if 'a' ≤ c ∧ c ≤ 'f' then some (c.toNat - 87)
  else if 'A' ≤ c ∧ c ≤ 'F' then some (c.toNat - 55)
  else none

def hexQuad : Step Nat
  | a :: b :: c :: d :: rest => do
    let a ← hexValue? a
    let b ← hexValue? b
    let c ← hexValue? c
    let d ← hexValue? d
    return (((a * 16 + b) * 16 + c) * 16 + d, rest)
  | _ => none

/-- The character of a four-digit escape: a code unit alone, or a pair of surrogates. -/
def unicodeEscape (cs : List Char) : Option (Char × List Char) := do
  let (unit, rest) ← hexQuad cs
  if 0xD800 ≤ unit ∧ unit < 0xDC00 then
    match rest with
    | '\\' :: 'u' :: rest =>
      let (low, rest) ← hexQuad rest
      if 0xDC00 ≤ low ∧ low < 0xE000 then
        return (Char.ofNat (0x10000 + (unit - 0xD800) * 0x400 + (low - 0xDC00)), rest)
      else none
    | _ => none
  else if 0xDC00 ≤ unit ∧ unit < 0xE000 then none
  else return (Char.ofNat unit, rest)

def simpleEscape? : Char → Option Char
  | '"' => some '"'
  | '\\' => some '\\'
  | '/' => some '/'
  | 'b' => some (Char.ofNat 8)
  | 'f' => some (Char.ofNat 12)
  | 'n' => some (Char.ofNat 10)
  | 'r' => some (Char.ofNat 13)
  | 't' => some (Char.ofNat 9)
  | _ => none

/-- The rest of a string after its opening quote; `read` holds the characters so far, last first. -/
def stringBody : (fuel : Nat) → (read : List Char) → Step String
  | 0, _, _ => none
  | _, _, [] => none
  | fuel + 1, read, c :: rest =>
    if c = '"' then some (String.ofList read.reverse, rest)
    else if c = '\\' then
      match rest with
      | 'u' :: rest =>
        match unicodeEscape rest with
        | some (c, rest) => stringBody fuel (c :: read) rest
        | none => none
      | e :: rest =>
        match simpleEscape? e with
        | some c => stringBody fuel (c :: read) rest
        | none => none
      | [] => none
    else if c.toNat < 32 then none
    else stringBody fuel (c :: read) rest

def stringToken (fuel : Nat) : Step String := stringBody fuel []

end MeshFlow.Json
