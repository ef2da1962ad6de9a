import MeshFlow.Number.Convert

set_option autoImplicit false

/-!
# The fewest digits that read back

The decimals that read back as a given float are those between the midpoints to its neighbours,
the ends included when its significand is even. `shortest` walks from coarse decimal grids to fine
ones and takes the first that has a point in this interval; of two such points the nearer one, and
of two equally near the one that a notation prefers.
-/
namespace MeshFlow.Number

structure Decimal where
  digits : Nat
  exponent : Int
  deriving DecidableEq

/-- Which of two decimals a number takes that lies halfway between them. -/
inductive Tie where
  /-- The one with an even last digit. -/
  | toEven
  /-- The larger one. -/
  | up
  deriving DecidableEq

def Tie.takesBelow : Tie → (below : Nat) → Bool
  | toEven, below => below % 2 == 0
  | up, _ => false

/-- The interval of a float and its value, as fractions over one denominator. -/
structure Neighbourhood where
  lower : Nat
  value : Nat
  upper : Nat
  denominator : Nat
  closed : Bool

namespace Neighbourhood

/-- The neighbourhood of `mantissa · 2 ^ exponent`, in units of `10 ^ unit`. The gap below a power
of two is half the gap above it, except at the bottom of the range. -/
def around (f : Format) (mantissa : Nat) (exponent unit : Int) : Neighbourhood :=
  let two := exponent - 2
  let scale := Nat.pow 2 two.toNat * Nat.pow 10 (-unit).toNat
  let gap := if mantissa = Nat.pow 2 f.fractionBits ∧ f.leastExponent < exponent then 1 else 2
  { lower := (4 * mantissa - gap) * scale
    value := 4 * mantissa * scale
    upper := (4 * mantissa + 2) * scale
    denominator := Nat.pow 2 (-two).toNat * Nat.pow 10 unit.toNat
    closed := mantissa % 2 == 0 }

def Contains (n : Neighbourhood) (point : Nat) : Prop :=
  if n.closed then n.lower ≤ point * n.denominator ∧ point * n.denominator ≤ n.upper
  else n.lower < point * n.denominator ∧ point * n.denominator < n.upper

instance (n : Neighbourhood) (point : Nat) : Decidable (n.Contains point) := by
  unfold Contains
  infer_instance

/-- The grid point of the neighbourhood next to the value, if it has one. -/
def nearest? (n : Neighbourhood) (tie : Tie) : Option Nat :=
  let below := n.value / n.denominator
  let above := below + 1
  if n.Contains below then
    if n.Contains above then
      let left := n.value - below * n.denominator
      let right := above * n.denominator - n.value
      if left < right ∨ (left = right ∧ tie.takesBelow below) then some below else some above
    else some below
  else if n.Contains above then some above
  else none

end Neighbourhood

/-- The first hit on the grids `10 ^ unit`, `10 ^ (unit - 1)`, …, at most `grids` of them. -/
def searchGrids (f : Format) (tie : Tie) (mantissa : Nat) (exponent : Int) : Nat → Int → Decimal
  | 0, unit => ⟨0, unit⟩
  | grids + 1, unit =>
    match (Neighbourhood.around f mantissa exponent unit).nearest? tie with
    | some point => ⟨point, unit⟩
    | none => searchGrids f tie mantissa exponent grids (unit - 1)

def dropZeros : Nat → Nat → Int → Decimal
  | fuel + 1, digits, exponent =>
    if digits ≠ 0 ∧ digits % 10 = 0 then dropZeros fuel (digits / 10) (exponent + 1)
    else ⟨digits, exponent⟩
  | 0, digits, exponent => ⟨digits, exponent⟩

/-- The shortest decimal that reads back as `mantissa · 2 ^ exponent`, which is not zero. The
search starts on a grid coarser than the number. -/
def shortest (f : Format) (tie : Tie) (mantissa : Nat) (exponent : Int) : Decimal :=
  let start := (exponent + mantissa.log2 + 1) * 30103 / 100000 + 2
  let found := searchGrids f tie mantissa exponent 24 start
  dropZeros 24 found.digits found.exponent

end MeshFlow.Number
