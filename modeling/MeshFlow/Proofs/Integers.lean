import MeshFlow.Proofs.Converting
import MeshFlow.Proofs.Orderly

set_option autoImplicit false

/-!
# Arithmetic on integers

Arithmetic takes its operands as floats and casts the result back. So integers are rounded on the
way in and on the way out, and what is too large is held at the ends of the range. The larger and
the smaller operand come out as the float nearest to them; sums, differences and products do so of
operands that are floats themselves. Up to 24 bits nothing is lost.
-/
namespace MeshFlow
open Number

/-- The integer that a number is cast to. -/
def Number.held (q : ℚ) : ℤ := max (-2 ^ 31) (min (2 ^ 31 - 1) (truncate q))

/-- A number that comes back from floats as it was: the cast also holds what is rounded up to the
end of the range. -/
def Number.Lossless (q : ℚ) : Prop := Fits q ∨ q = 2 ^ 31 - 1

namespace Number

theorem place_eq {q : ℚ} {p : ℤ} (least : -149 ≤ p) (low : 2 ^ (p + 23) ≤ |q|)
    (high : |q| < 2 ^ (p + 24)) : place q = p := by
  rw [place, log_eq low (by rwa [add_assoc])]
  omega

theorem exists_nearest_intCast (n : ℤ) : ∃ k : ℤ, nearest n = k := by
  by_cases whole : 0 ≤ place n
  · have power := zpow_add_toNat whole
    rw [sub_zero, zpow_zero, mul_one] at power
    refine ⟨nearestInt (n / 2 ^ place n) * (2 ^ (place n).toNat : ℕ), ?_⟩
    rw [nearest, Int.cast_mul, Int.cast_natCast, ← power]
  · have small : |(n : ℚ)| ≤ 2 ^ (24 : ℤ) :=
      (abs_lt_place (n : ℚ)).le.trans (zpow_le_zpow_right₀ (by norm_num) (by omega))
    exact ⟨n, nearest_of_fits (fits_intCast (by exact_mod_cast small))⟩

theorem nearest_last : nearest (2 ^ 31 - 1) = 2 ^ 31 := by
  have seventh : place (2 ^ 31 - 1) = 7 := place_eq (by norm_num) (by norm_num) (by norm_num)
  have even : nearestInt ((2 ^ 31 - 1) / 2 ^ (7 : ℤ)) = 2 ^ 24 :=
    nearestInt_eq (.inl (by norm_num))
  rw [nearest, seventh, even]
  norm_num

theorem held_nearest_eq_iff {n : ℤ} (low : -2 ^ 31 ≤ n) (high : n < 2 ^ 31) :
    held (nearest n) = n ↔ Lossless n := by
  obtain ⟨k, rounded⟩ := exists_nearest_intCast n
  have fits := fits_two_pow 31
  have above : -2 ^ 31 ≤ k := by
    have := le_nearest fits.neg (show -2 ^ 31 ≤ (n : ℚ) by exact_mod_cast low)
    rw [rounded] at this
    exact_mod_cast this
  have below : k ≤ 2 ^ 31 := by
    have := nearest_le fits (show (n : ℚ) ≤ 2 ^ 31 by exact_mod_cast high.le)
    rw [rounded] at this
    exact_mod_cast this
  have same : Fits n ↔ k = n := by
    rw [← nearest_eq_self_iff, rounded, Int.cast_inj]
  have last : (n : ℚ) = 2 ^ 31 - 1 ↔ n = 2 ^ 31 - 1 := by exact_mod_cast Iff.rfl
  rw [rounded, held, truncate_intCast, Lossless, same, last]
  constructor
  · omega
  · rintro (rfl | rfl)
    · omega
    · have out : (k : ℚ) = 2 ^ 31 := by
        rw [← rounded, ← nearest_last]
        norm_num
      have : k = 2 ^ 31 := by exact_mod_cast out
      omega

theorem stands_toInt (i : Int32) : Stands (ofInt i.toInt) (nearest i.toInt) :=
  stands_ofInt ((abs_le.2 ⟨i.le_toInt, i.toInt_lt.le⟩).trans (by norm_num))

theorem abs_nearest_toInt_le (i : Int32) : |nearest (i.toInt : ℚ)| ≤ 2 ^ 31 := by
  have small : |i.toInt| ≤ 2 ^ 31 := abs_le.2 ⟨i.le_toInt, i.toInt_lt.le⟩
  exact abs_nearest_le (fits_two_pow 31) (by exact_mod_cast small)

end Number

namespace Operation

/-- What an operation comes to on numbers. -/
def exact : Operation → ℚ → ℚ → ℚ
  | .add, a, b => a + b
  | .subtract, a, b => a - b
  | .multiply, a, b => a * b
  | .divide, a, b => a / b
  | .max, a, b => Max.max a b
  | .min, a, b => Min.min a b

/-- An operation on two integers and what it yields. -/
structure Computes (operation : Operation) (a b r : Int32) : Prop where
  rounded : r.toInt = held (nearest (operation.exact (nearest a.toInt) (nearest b.toInt)))
  /-- The larger or the smaller operand is exact just if it comes back from floats. -/
  picked : operation = .max ∨ operation = .min →
    ((r.toInt : ℚ) = operation.exact a.toInt b.toInt ↔ Lossless (operation.exact a.toInt b.toInt))
  /-- Of operands that are floats, a result in the range is exact just if it comes back. -/
  found : Fits a.toInt → Fits b.toInt → -2 ^ 31 ≤ operation.exact a.toInt b.toInt →
    operation.exact a.toInt b.toInt < 2 ^ 31 →
    ((r.toInt : ℚ) = operation.exact a.toInt b.toInt ↔ Lossless (operation.exact a.toInt b.toInt))

theorem Computes.short {operation : Operation} {a b r : Int32} {c : ℤ}
    (computes : operation.Computes a b r) (result : operation.exact a.toInt b.toInt = c)
    (shortA : |a.toInt| ≤ 2 ^ 24) (shortB : |b.toInt| ≤ 2 ^ 24) (short : |c| ≤ 2 ^ 24) :
    r.toInt = c := by
  have found := computes.found (fits_intCast shortA) (fits_intCast shortB)
  rw [result] at found
  obtain ⟨low, high⟩ := abs_le.1 short
  have lossless : Lossless (c : ℚ) := .inl (fits_intCast short)
  have low' : -2 ^ 31 ≤ (c : ℚ) := by
    have : -2 ^ 31 ≤ c := by omega
    exact_mod_cast this
  have high' : (c : ℚ) < 2 ^ 31 := by
    have : c < 2 ^ 31 := by omega
    exact_mod_cast this
  exact_mod_cast (found low' high').2 lossless

theorem stands_apply {operation : Operation} (whole : operation ≠ .divide) {x y : Float32} {p q : ℚ}
    (first : Stands x p) (second : Stands y q) (small : |p| ≤ 2 ^ 31) (small' : |q| ≤ 2 ^ 31) :
    Stands (operation.apply x y) (nearest (operation.exact p q)) := by
  have power : (2 : ℚ) ^ (127 : ℤ) = 2 ^ 127 := by norm_cast
  have sum : |p| + |q| ≤ 2 ^ (127 : ℤ) := by
    rw [power]
    linarith
  cases operation with
  | divide => exact absurd rfl whole
  | add => exact first.add second ((abs_add_le p q).trans sum)
  | subtract => exact first.sub second ((abs_sub p q).trans sum)
  | multiply =>
    refine first.mul second ?_
    rw [abs_mul, power]
    calc |p| * |q| ≤ 2 ^ 31 * 2 ^ 31 := mul_le_mul small small' (abs_nonneg q) (by norm_num)
      _ ≤ 2 ^ 127 := by norm_num
  | max =>
    have larger := first.larger second
    have fits := larger.fits
    exact (nearest_of_fits fits).symm ▸ larger
  | min =>
    have smaller := first.smaller second
    have fits := smaller.fits
    exact (nearest_of_fits fits).symm ▸ smaller

theorem exists_exact_intCast {operation : Operation} (whole : operation ≠ .divide) (a b : ℤ) :
    ∃ c : ℤ, operation.exact a b = c := by
  cases operation with
  | divide => exact absurd rfl whole
  | add => exact ⟨a + b, (Int.cast_add a b).symm⟩
  | subtract => exact ⟨a - b, (Int.cast_sub a b).symm⟩
  | multiply => exact ⟨a * b, (Int.cast_mul a b).symm⟩
  | max => exact ⟨Max.max a b, (Int.cast_max ..).symm⟩
  | min => exact ⟨Min.min a b, (Int.cast_min ..).symm⟩

theorem exact_nearest_of_picks {operation : Operation} (picks : operation = .max ∨ operation = .min)
    (p q : ℚ) : nearest (operation.exact (nearest p) (nearest q)) = nearest (operation.exact p q) := by
  rcases picks with rfl | rfl
  · change nearest (Max.max _ _) = nearest (Max.max p q)
    rw [← nearest_mono.map_max, nearest_of_fits (fits_nearest _)]
  · change nearest (Min.min _ _) = nearest (Min.min p q)
    rw [← nearest_mono.map_min, nearest_of_fits (fits_nearest _)]

theorem exact_bounds_of_picks {operation : Operation} (picks : operation = .max ∨ operation = .min)
    (a b : Int32) : -2 ^ 31 ≤ operation.exact a.toInt b.toInt ∧
      operation.exact a.toInt b.toInt < 2 ^ 31 := by
  have bounds : ∀ i : Int32, -2 ^ 31 ≤ (i.toInt : ℚ) ∧ (i.toInt : ℚ) < 2 ^ 31 := fun i =>
    ⟨by exact_mod_cast i.le_toInt, by exact_mod_cast i.toInt_lt⟩
  rcases picks with rfl | rfl
  · exact ⟨le_max_of_le_left (bounds a).1, max_lt (bounds a).2 (bounds b).2⟩
  · exact ⟨le_min (bounds a).1 (bounds b).1, min_lt_of_left_lt (bounds a).2⟩

theorem computes_apply {operation : Operation} (whole : operation ≠ .divide) (a b : Int32) :
    operation.Computes a b (toInt32 (operation.apply (ofInt a.toInt) (ofInt b.toInt))) := by
  have stands : ∀ i : Int32, Stands (ofInt i.toInt) (nearest i.toInt) ∧
      |nearest (i.toInt : ℚ)| ≤ 2 ^ 31 :=
    fun i => ⟨stands_toInt i, abs_nearest_toInt_le i⟩
  have applied := stands_apply whole (stands a).1 (stands b).1 (stands a).2 (stands b).2
  have rounded : (toInt32 (operation.apply (ofInt a.toInt) (ofInt b.toInt))).toInt
      = held (nearest (operation.exact (nearest a.toInt) (nearest b.toInt))) := applied.toInt32
  obtain ⟨c, result⟩ := exists_exact_intCast whole a.toInt b.toInt
  have lossless : nearest (operation.exact (nearest a.toInt) (nearest b.toInt))
        = nearest (operation.exact a.toInt b.toInt) →
      -2 ^ 31 ≤ operation.exact a.toInt b.toInt → operation.exact a.toInt b.toInt < 2 ^ 31 →
      (((toInt32 (operation.apply (ofInt a.toInt) (ofInt b.toInt))).toInt : ℚ)
        = operation.exact a.toInt b.toInt ↔ Lossless (operation.exact a.toInt b.toInt)) := by
    intro same low high
    rw [rounded, same]
    rw [result] at low high ⊢
    rw [Int.cast_inj]
    exact held_nearest_eq_iff (by exact_mod_cast low) (by exact_mod_cast high)
  refine ⟨rounded, fun picks => ?_, fun fitsA fitsB => lossless ?_⟩
  · obtain ⟨low, high⟩ := exact_bounds_of_picks picks a b
    exact lossless (exact_nearest_of_picks picks _ _) low high
  · rw [nearest_of_fits fitsA, nearest_of_fits fitsB]

end Operation

namespace Graph
variable {g : Graph} {s : Session} {id : BlockId} {operation : Operation}

/-- What a block of arithmetic yields from a session from which it reads two integers. -/
def ComputesFrom (g : Graph) (id : BlockId) (operation : Operation) (s : Session) (v : Value) :
    Prop :=
  ∀ a b s₁ s₂, (g.readInput g.supplier (.input id 0)).run s = some (.int a, s₁) →
    (g.adaptInput g.supplier (.input id 1) .int).run s₁ = some (some (.int b), s₂) →
    ∃ r, v = .int r ∧ operation.Computes a b r

theorem ifEnds_math (whole : operation ≠ .divide) :
    IfEnds (g.runProgram g.supplier id (Block.mathProgram operation)) s fun v _ =>
      g.ComputesFrom id operation s v := by
  intro v s' run a b s₁ s₂ left right
  have yields : IfEnds (g.runProgram g.supplier id (Block.mathProgram operation)) s fun v _ =>
      v = .int (toInt32 (operation.apply (ofInt a.toInt) (ofInt b.toInt))) := by
    change IfEnds (g.readInput g.supplier (.input id 0) >>= _) s _
    rw [ifEnds_bind]
    intro _ _ read
    cases left.symm.trans read
    change IfEnds (g.adaptInput g.supplier (.input id 1) .int >>= _) s₁ _
    rw [ifEnds_bind]
    intro _ _ adapt
    cases right.symm.trans adapt
    exact (ifEnds_pure ..).2 rfl
  exact ⟨_, yields v s' run, Operation.computes_apply whole a b⟩

/-- Whenever a block of arithmetic, divisions apart, reads an integer on the left and one on the
right, it yields an integer: that of the larger or the smaller operand if it comes back from
floats, that of the sum, the difference or the product if the operands are floats and it comes back
too, and else what is rounded on the way. -/
theorem ReachableWith.computes (h : g.ReachableWith Block.IsStandard) {n : Node}
    (hn : g.node? id = some n) (hb : n.block = .math operation) (whole : operation ≠ .divide) :
    g.Evaluates id n (Block.mathProgram operation) (g.ComputesFrom id operation) := by
  have order := ReachableWith.inOrder h
  refine order.evaluates hn hb (List.cons_ne_nil _ _) rfl fun s underway => ?_
  have restores := (Block.plain_math operation).restores
  exact ((order.ends_program (underway.orderly order) id restores).and_ifEnds
    (ifEnds_math whole)).mono fun _ _ both => both.2

def towering : Graph :=
  [.add "tower" (.input (.ofValue (.int 16777217))), .add "ground" (.input (.ofValue (.int 0))),
    .add "larger" (.math .max), .connectUnchecked (.output 0 0) (.input 2 0),
    .connectUnchecked (.output 1 0) (.input 2 1)].foldl Edit.apply .empty

theorem reachable_towering : towering.ReachableWith Block.IsStandard := by
  refine ReachableBy.foldl .empty _ ?_
  refine ⟨⟨?_, trivial⟩, ⟨?_, trivial⟩, ⟨?_, trivial⟩, ⟨trivial, trivial⟩, ⟨trivial, trivial⟩,
    trivial⟩ <;> decide +kernel

theorem larger_towering :
    Ends (towering.supplier.read (.output 0 0)) (.start {}) (fun v _ => v = .int 16777217) ∧
      Ends (towering.supplier.read (.output 1 0)) (.start {}) (fun v _ => v = .int 0) ∧
      Ends (towering.supplier.read (.output 2 0)) (.start {}) fun v _ => v = .int 16777216 :=
  ⟨⟨_, _, rfl, rfl⟩, ⟨_, _, rfl, rfl⟩, ⟨_, _, rfl, rfl⟩⟩

theorem computes_towering :
    Ends (towering.runProgram towering.supplier 2 (Block.mathProgram .max)) (.start {}) fun v _ =>
      ∃ r, v = .int r ∧ Operation.Computes .max 16777217 0 r := by
  obtain ⟨n, hn, hb⟩ : ∃ n, towering.node? 2 = some n ∧ n.block = .math .max := ⟨_, rfl, rfl⟩
  have evaluates := ReachableWith.computes reachable_towering hn hb nofun
  refine (evaluates.runs (.start {}) (.start {})).mono fun v _ computes => ?_
  exact computes 16777217 0 _ _ rfl rfl

end Graph
end MeshFlow
