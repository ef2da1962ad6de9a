import MeshFlow.Number.Binary

set_option autoImplicit false

/-!
# Conversions of floats

Widening, narrowing, floors and conversions to and from integers, each defined by the exact value
of its argument: a result is the nearest float, or the integer toward zero held inside a range.
-/
namespace MeshFlow.Number

def reading (x : Float32) : Reading := Format.binary32.read x.toBits.toNat

def readingWide (x : Float) : Reading := Format.binary64.read x.toBits.toNat

def single (negative : Bool) (mantissa : Nat) (exponent : Int) : Float32 :=
  Float32.ofBits (UInt32.ofNat (Format.binary32.round negative mantissa exponent))

def double (negative : Bool) (mantissa : Nat) (exponent : Int) : Float :=
  Float.ofBits (UInt64.ofNat (Format.binary64.round negative mantissa exponent))

def infinity : Float32 := Float32.ofBits 0x7F800000

def notANumber : Float32 := Float32.ofBits 0x7FC00000

def wideInfinity : Float := Float.ofBits 0x7FF0000000000000

def wideNotANumber : Float := Float.ofBits 0x7FF8000000000000

/-- The same number in double precision, which holds every single-precision float. -/
def widen (x : Float32) : Float :=
  match reading x with
  | .notANumber => wideNotANumber
  | .infinite negative => if negative then -wideInfinity else wideInfinity
  | .finite negative mantissa exponent => double negative mantissa exponent

def narrow (x : Float) : Float32 :=
  match readingWide x with
  | .notANumber => notANumber
  | .infinite negative => if negative then -infinity else infinity
  | .finite negative mantissa exponent => single negative mantissa exponent

def ofInt (i : Int) : Float32 := single (i < 0) i.natAbs 0

def ofNat (n : Nat) : Float32 := single false n 0

def wideOfInt (i : Int) : Float := double (i < 0) i.natAbs 0

/-- The largest integer not above `x`, as a float; infinities and what is not a number stay. -/
def floor (x : Float32) : Float32 :=
  match reading x with
  | .finite negative mantissa exponent =>
    if 0 ≤ exponent then x
    else
      let places := (-exponent).toNat
      single negative
        (if negative then (mantissa + (Nat.pow 2 places - 1)) >>> places else mantissa >>> places) 0
  | _ => x

/-- The integer next to a finite number on the side of zero. -/
def towardZero (negative : Bool) (mantissa : Nat) (exponent : Int) : Int :=
  let magnitude :=
    if 0 ≤ exponent then mantissa <<< exponent.toNat else mantissa >>> (-exponent).toNat
  if negative then -(magnitude : Int) else magnitude

/-- The integer toward zero, held between `least` and `greatest`; zero for what is not a number. -/
def clampToInt (least greatest : Int) (x : Float32) : Int :=
  match reading x with
  | .notANumber => 0
  | .infinite negative => if negative then least else greatest
  | .finite negative mantissa exponent =>
    max least (min greatest (towardZero negative mantissa exponent))

def toInt32 (x : Float32) : Int32 := Int32.ofInt (clampToInt (-2147483648) 2147483647 x)

def toCount (x : Float32) : Nat := (clampToInt 0 18446744073709551615 x).toNat

def larger (a b : Float32) : Float32 := if a.isNaN || a < b then b else a

/-- The smaller operand; what is not a number loses, and of equal operands the first wins. -/
def smaller (a b : Float32) : Float32 := if a.isNaN || b < a then b else a

def halfTurn : Float32 := Float32.ofBits 0x40490FDB

def wholeTurn : Float32 := Float32.ofBits 0x40C90FDB

end MeshFlow.Number
