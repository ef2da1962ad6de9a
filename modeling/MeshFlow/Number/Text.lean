import MeshFlow.Number.Shortest

set_option autoImplicit false

/-!
# Decimal notation

Three ways of writing a float: its shortest decimal in positional notation, its exact value with a
fixed number of places, and the notation of numbers in JSON, which turns to an exponent for very
small and very large numbers.
-/
namespace MeshFlow.Number

def zeros (n : Nat) : String := String.ofList (List.replicate n '0')

def signText (negative : Bool) : String := if negative then "-" else ""

def withPlaces (digits places : Nat) : String :=
  let text := toString digits
  let text := zeros (places + 1 - text.length) ++ text
  let chars := text.toList
  if places = 0 then text
  else
    String.ofList (chars.take (chars.length - places)) ++ "."
      ++ String.ofList (chars.drop (chars.length - places))

def Decimal.positional (d : Decimal) : String :=
  if 0 ≤ d.exponent then toString d.digits ++ zeros d.exponent.toNat
  else withPlaces d.digits (-d.exponent).toNat

def Decimal.scientific (d : Decimal) : String :=
  let chars := (toString d.digits).toList
  let exponent := d.exponent + (chars.length - 1 : Nat)
  let fraction := if chars.length ≤ 1 then "" else "." ++ String.ofList (chars.drop 1)
  let sign := if exponent < 0 then "-" else "+"
  String.ofList (chars.take 1) ++ fraction ++ "e" ++ sign ++ toString exponent.natAbs

/-- The shortest decimal that reads back, in positional notation; a tie goes away from zero, and a
zero has no sign. -/
def plain (x : Float32) : String :=
  match reading x with
  | .notANumber => "NaN"
  | .infinite negative => signText negative ++ "inf"
  | .finite negative mantissa exponent =>
    if mantissa = 0 then "0"
    else signText negative ++ (shortest .binary32 .up mantissa exponent).positional

/-- The exact value rounded to `places` places, all of them written; a zero has no sign. -/
def fixed (places : Nat) (x : Float32) : String :=
  match reading x with
  | .notANumber => "NaN"
  | .infinite negative => signText negative ++ "inf"
  | .finite negative mantissa exponent =>
    let scaled := mantissa * Nat.pow 10 places
    let rounded :=
      if 0 ≤ exponent then scaled <<< exponent.toNat
      else Format.shiftRound scaled (-exponent).toNat
    signText (negative && rounded != 0) ++ withPlaces rounded places

/-- The least and the greatest decimal exponent that JSON text writes in positional notation. -/
def positionalRange : Int × Int := (-5, 15)

/-- A finite number in JSON: its shortest decimal with at least one place, or one digit and an
exponent outside `positionalRange`; a tie goes to the even digit. What is not finite has no text. -/
def jsonText? (x : Float) : Option String :=
  match readingWide x with
  | .finite negative mantissa exponent =>
    if mantissa = 0 then some (signText negative ++ "0.0")
    else
      let d := shortest .binary64 .toEven mantissa exponent
      let leading := d.exponent + ((toString d.digits).length - 1 : Nat)
      let text :=
        if positionalRange.1 ≤ leading ∧ leading ≤ positionalRange.2 then
          d.positional ++ (if 0 ≤ d.exponent then ".0" else "")
        else d.scientific
      some (signText negative ++ text)
  | _ => none

end MeshFlow.Number
