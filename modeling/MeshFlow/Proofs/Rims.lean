import MeshFlow.Proofs.Crossing
import MeshFlow.Proofs.Seams

set_option autoImplicit false

/-!
# Rims

The caps of a cylinder and its side have vertices of their own along the rims. With these put on
each other, all edges within a cap and within the side occur once and once the other way round.
Along a rim it depends on which way the cap winds. A cap below zero winds the other way than one
above, but when the cylinder is upright they both run along their rims as the side does: the edges
of a rim occur twice, and not the other way round.
-/
namespace MeshFlow
open Float.Model

namespace Number

theorem infinite_or_stands {x : Float32} (number : x < 0 ∨ 0 < x) :
    x = infinity ∨ x = -infinity ∨ ∃ q, Stands x q := by
  cases form : unpacked x with
  | notANumber =>
    have order : UnpackedFloat.lt (unpacked x) (unpacked 0) = true ∨
        UnpackedFloat.lt (unpacked 0) (unpacked x) = true :=
      number.imp of_decide_eq_true of_decide_eq_true
    rw [form] at order
    rcases order with below | above
    · cases below
    · cases above
  | infinity s =>
    cases s with
    | positive => exact .inl (unpacked_injective form (by rw [form]; nofun))
    | negative => exact .inr (.inl (unpacked_injective form (by rw [form]; nofun)))
  | zero s | finite s m e pos =>
    refine .inr (.inr (exists_stands ?_))
    change (unpacked x).isFinite = true
    rw [form]
    rfl

theorem Stands.lt_zero_iff {x : Float32} {q : ℚ} (stands : Stands x q) : x < 0 ↔ q < 0 :=
  stands.lt_iff stands_zero

theorem Stands.half {x : Float32} {q : ℚ} (stands : Stands x q) :
    Stands (x / 2) (nearest (q / 2)) := by
  refine stands.div stands_two two_ne_zero ?_
  rw [abs_div, abs_two, div_le_iff₀ two_pos]
  calc |q| ≤ 2 ^ (128 : ℤ) := stands.small.le
    _ = 2 ^ (127 : ℤ) * 2 := by norm_num

theorem not_neg_lt_zero {x : Float32} (below : x < 0) : ¬-x < 0 := by
  rcases infinite_or_stands (.inl below) with rfl | rfl | ⟨q, stands⟩
  · exact absurd below (by decide)
  · decide
  · rw [stands.neg.lt_zero_iff]
    have := stands.lt_zero_iff.1 below
    linarith

theorem nearest_half_least : nearest (2 ^ (-149 : ℤ) / 2) = 0 := by
  have half : (2 : ℚ) ^ (-149 : ℤ) / 2 = 2 ^ (-150 : ℤ) := by norm_num
  have last : place (2 ^ (-150 : ℤ)) = -149 := by
    rw [place, abs_of_pos (two_zpow_pos _), log_eq le_rfl (by norm_num)]
    rfl
  have even : nearestInt (2 ^ (-150 : ℤ) / 2 ^ (-149 : ℤ)) = 0 :=
    nearestInt_eq (.inr ⟨by norm_num [abs_of_pos], Even.zero⟩)
  rw [half, nearest, last, even, Int.cast_zero, zero_mul]

theorem nearest_half_pos_iff {q : ℚ} (fits : Fits q) (positive : 0 < q) :
    0 < nearest (q / 2) ↔ q ≠ 2 ^ (-149 : ℤ) := by
  refine ⟨fun above least => ?_, fun larger => ?_⟩
  · rw [least, nearest_half_least] at above
    exact above.false
  · obtain ⟨n, e, -, least, rfl⟩ := fits
    have unit := two_zpow_pos (-149)
    have whole : (n : ℚ) * 2 ^ e = (n * (2 ^ (e + 149).toNat : ℕ) : ℤ) * 2 ^ (-149 : ℤ) := by
      rw [zpow_add_toNat least, sub_neg_eq_add]
      push_cast
      ring
    rw [whole] at positive larger ⊢
    generalize n * (2 ^ (e + 149).toNat : ℕ) = k at positive larger
    have first : 0 < k := by exact_mod_cast pos_of_mul_pos_left positive unit.le
    have second : k ≠ 1 := fun one => larger (by rw [one, Int.cast_one, one_mul])
    have two : (2 : ℚ) ≤ k := by exact_mod_cast (show 2 ≤ k by omega)
    refine unit.trans_le (le_nearest (fits_two_zpow le_rfl) ?_)
    rw [le_div_iff₀ two_pos, mul_comm]
    exact mul_le_mul_of_nonneg_right two unit.le

theorem half_of_pos {x : Float32} (positive : 0 < x) :
    ¬x / 2 < 0 ∧ (-(x / 2) < 0 ↔ ¬Stands x (2 ^ (-149 : ℤ))) := by
  rcases infinite_or_stands (.inr positive) with rfl | rfl | ⟨q, stands⟩
  · refine ⟨by decide, iff_of_true (by decide) fun least => ?_⟩
    exact absurd least.isFinite (by decide)
  · exact absurd positive (by decide)
  · have above := (stands_zero.lt_iff stands).1 positive
    have half := stands.half
    refine ⟨?_, ?_⟩
    · rw [half.lt_zero_iff, not_lt]
      exact nearest_nonneg (half_pos above).le
    · rw [half.neg.lt_zero_iff, neg_lt_zero, nearest_half_pos_iff stands.fits above]
      exact not_congr ⟨fun least => least ▸ stands, fun least => stands.unique least⟩

end Number

namespace Cylinder

/-- The places on a cylinder: the centres of the caps, and their rims, around which the last column
of the side is the first again. -/
inductive Spot (segments : Nat) where
  | centre (upper : Bool)
  | rim (upper : Bool) (column : ZMod segments)
  deriving DecidableEq

open Spot

def capCentre (segments : Nat) (upper : Bool) : Nat := if upper then segments + 1 else 0

def capPlace {segments : Nat} (upper : Bool) (vertex : Nat) : Spot segments :=
  if vertex = 0 then centre upper else rim upper (vertex - 1 : Nat)

/-- The place of a vertex. A ring has the place of its cap's rim, and so has the side where it
meets the cap, from the lower and the upper vertex of the first column on. -/
def weld (segments vertex : Nat) : Spot segments :=
  if vertex < segments + 1 then capPlace false vertex
  else if vertex < 2 * (segments + 1) then capPlace true (vertex - (segments + 1))
  else
    let behind := vertex - 2 * (segments + 1)
    rim (behind % 2 = 1) (behind / 2 : Nat)

section
variable {segments step : Nat}

theorem weld_cap {vertex : Nat} (upper : Bool) (le : vertex ≤ segments) :
    weld segments (capCentre segments upper + vertex) = capPlace upper vertex := by
  cases upper with
  | false => rw [capCentre, if_neg Bool.false_ne_true, Nat.zero_add, weld, if_pos (by omega)]
  | true =>
    rw [capCentre, if_pos rfl, weld, if_neg (by omega), if_pos (by omega), Nat.add_sub_cancel_left]

theorem weld_centre (upper : Bool) : weld segments (capCentre segments upper) = centre upper :=
  (weld_cap upper (Nat.zero_le _)).trans (if_pos rfl)

theorem weld_ring (upper : Bool) (hs : step < segments) :
    weld segments (capCentre segments upper + 1 + step) = rim upper step := by
  rw [Nat.add_assoc, weld_cap upper (by omega), capPlace, if_neg (by omega),
    Nat.add_sub_cancel_left]

theorem weld_low (column : Nat) :
    weld segments (2 * (segments + 1) + 2 * column) = rim false column := by
  rw [weld, if_neg (by omega), if_neg (by omega), Nat.add_sub_cancel_left]
  simp

theorem weld_high (column : Nat) :
    weld segments (2 * (segments + 1) + 2 * column + 1) = rim true column := by
  rw [weld, if_neg (by omega), if_neg (by omega), Nat.add_assoc, Nat.add_sub_cancel_left]
  simp [Nat.mul_add_div]

end

def capEdges {segments : Nat} (upper below : Bool) (z : ZMod segments) :
    List (Spot segments × Spot segments) :=
  if below then around (centre upper) (rim upper (z + 1)) (rim upper z)
  else around (centre upper) (rim upper z) (rim upper (z + 1))

def sideEdges {segments : Nat} (z : ZMod segments) : List (Spot segments × Spot segments) :=
  around (rim false z) (rim true z) (rim true (z + 1))
    ++ around (rim false z) (rim true (z + 1)) (rim false (z + 1))

theorem edges_capFace {segments step : Nat} (upper below : Bool) (hs : step < segments) :
    (capFace below (capCentre segments upper) segments step).edges (weld segments)
      = capEdges upper below (step : ZMod segments) := by
  have next : (step + 1) % segments < segments := Nat.mod_lt _ (Nat.zero_lt_of_lt hs)
  have here := weld_ring upper hs
  have there := weld_ring upper next
  rw [ZMod.natCast_mod, Nat.cast_succ] at there
  rw [capFace, capEdges]
  split <;> simp only [Face.edges, weld_centre, here, there]

theorem edges_columnFaces (segments step : Nat) :
    (columnFaces segments step).flatMap (Face.edges (weld segments))
      = sideEdges (step : ZMod segments) := by
  have low : weld segments (2 * (segments + 1) + 2 * step + 2)
      = rim false ((step : ZMod segments) + 1) := by
    rw [← Nat.cast_succ]
    exact weld_low (step + 1)
  have high : weld segments (2 * (segments + 1) + 2 * step + 3)
      = rim true ((step : ZMod segments) + 1) := by
    rw [← Nat.cast_succ]
    exact weld_high (step + 1)
  simp only [columnFaces, Face.quad, List.flatMap_cons, List.flatMap_nil, List.append_nil,
    Face.edges, sideEdges, weld_low, weld_high, low, high]

def edges (lowerBelow upperBelow : Bool) (segments : Nat) : List (Spot segments × Spot segments) :=
  (columns segments).flatMap (capEdges false lowerBelow)
    ++ (columns segments).flatMap (capEdges true upperBelow)
    ++ (columns segments).flatMap sideEdges

theorem edges_faces (lowerBelow upperBelow : Bool) (segments : Nat) :
    (faces lowerBelow upperBelow segments).flatMap (Face.edges (weld segments))
      = edges lowerBelow upperBelow segments := by
  have cap : ∀ upper below, (capFaces below (capCentre segments upper) segments).flatMap
      (Face.edges (weld segments)) = (columns segments).flatMap (capEdges upper below) := by
    intro upper below
    rw [capFaces_eq, List.flatMap_map, flatMap_columns]
    exact List.flatMap_congr fun step hs => edges_capFace upper below (List.mem_range.1 hs)
  have side : (sideFaces segments).flatMap (Face.edges (weld segments))
      = (columns segments).flatMap sideEdges := by
    rw [sideFaces_eq, List.flatMap_assoc, flatMap_columns]
    exact List.flatMap_congr fun step _ => edges_columnFaces segments step
  rw [faces, List.flatMap_append, List.flatMap_append, side]
  exact congrArg₂ (· ++ · ++ _) (cap false lowerBelow) (cap true upperBelow)

section
variable {segments : Nat}

def capColumn (below : Bool) : Spot segments × Spot segments → ZMod segments
  | (rim _ z, rim _ w) => if below then w else z
  | (centre _, rim _ z) => if below then z - 1 else z
  | (rim _ z, centre _) => if below then z else z - 1
  | _ => 0

/-- The column with a triangle that runs through an edge of the side. -/
def sideColumn : Spot segments × Spot segments → ZMod segments
  | (rim false z, rim true _) | (rim true z, rim true _) | (rim false _, rim false z) => z
  | (rim true z, rim false _) => z - 1
  | _ => 0

theorem capColumn_eq (upper below : Bool) (z : ZMod segments) :
    ∀ e ∈ capEdges upper below z, capColumn below e = z := by
  cases below <;> simp [capEdges, around, capColumn]

theorem sideColumn_eq (z : ZMod segments) : ∀ e ∈ sideEdges z, sideColumn e = z := by
  simp [sideEdges, around, sideColumn]

theorem nodup_capEdges (three : 3 ≤ segments) (upper below : Bool) :
    ((columns segments).flatMap (capEdges upper below)).Nodup := by
  refine nodup_flatMap_of_owner (capColumn below) (nodup_columns segments) (fun z _ => ?_)
    fun z _ => capColumn_eq upper below z
  have next := (column_ne three z).1
  cases below <;> simp [capEdges, around, next, next.symm]

theorem nodup_sideEdges (three : 3 ≤ segments) : ((columns segments).flatMap sideEdges).Nodup := by
  refine nodup_flatMap_of_owner sideColumn (nodup_columns segments) (fun z _ => ?_)
    fun z _ => sideColumn_eq z
  have next := (column_ne three z).1
  simp [sideEdges, around, next, next.symm]

/-- The edges of a cap: to and from its centre, and along its rim one way. -/
def InCap (upper below : Bool) : Spot segments → Spot segments → Prop
  | centre u, rim v _ | rim u _, centre v => u = upper ∧ v = upper
  | rim u z, rim v w => u = upper ∧ v = upper ∧ if below then z = w + 1 else w = z + 1
  | _, _ => False

/-- The edges of the side: up and down, straight or across a column, and along the rims. -/
def InSide : Spot segments → Spot segments → Prop
  | rim false z, rim true w => w = z ∨ w = z + 1
  | rim true z, rim false w => z = w ∨ z = w + 1
  | rim true z, rim true w => w = z + 1
  | rim false z, rim false w => z = w + 1
  | _, _ => False

theorem inCap_of_mem {upper below : Bool} {z : ZMod segments} :
    ∀ e ∈ capEdges upper below z, InCap upper below e.1 e.2 := by
  cases below <;> simp [capEdges, around, InCap]

theorem inSide_of_mem {z : ZMod segments} : ∀ e ∈ sideEdges z, InSide e.1 e.2 := by
  simp [sideEdges, around, InSide]

/-- An edge of a rim, as the side runs through it. -/
def seam (upper : Bool) (z : ZMod segments) : Spot segments × Spot segments :=
  if upper then (rim true z, rim true (z + 1)) else (rim false (z + 1), rim false z)

def AlongRim (e : Spot segments × Spot segments) : Prop :=
  ∃ upper z, e = seam upper z ∨ e = (seam upper z).swap

theorem alongRim_of_next {upper : Bool} {z w : ZMod segments} (next : w = z + 1 ∨ z = w + 1) :
    AlongRim (rim upper z, rim upper w) := by
  cases upper <;> rcases next with rfl | rfl
  · exact ⟨false, z, .inr rfl⟩
  · exact ⟨false, w, .inl rfl⟩
  · exact ⟨true, z, .inl rfl⟩
  · exact ⟨true, w, .inr rfl⟩

theorem InCap.next {upper below u v : Bool} {z w : ZMod segments}
    (h : InCap upper below (rim u z) (rim v w)) : w = z + 1 ∨ z = w + 1 := by
  obtain ⟨-, -, next⟩ := h
  split at next
  · exact .inr next
  · exact .inl next

theorem InSide.next {u : Bool} {z w : ZMod segments} (h : InSide (rim u z) (rim u w)) :
    w = z + 1 ∨ z = w + 1 := by
  cases u
  · exact .inr h
  · exact .inl h

variable [NeZero segments] {p q : Spot segments}

theorem mem_capEdges_iff {upper below : Bool} :
    (p, q) ∈ (columns segments).flatMap (capEdges upper below) ↔ InCap upper below p q := by
  rw [List.mem_flatMap]
  refine ⟨fun ⟨_, _, edge⟩ => inCap_of_mem _ edge, fun inside => ?_⟩
  refine ⟨capColumn below (p, q), mem_columns _, ?_⟩
  match p, q, inside with
  | centre _, rim _ z, ⟨rfl, rfl⟩ | rim _ z, centre _, ⟨rfl, rfl⟩ =>
    cases below <;> simp [capColumn, capEdges, around]
  | rim _ z, rim _ w, ⟨rfl, rfl, next⟩ =>
    cases below with
    | false =>
      obtain rfl : w = z + 1 := next
      simp [capColumn, capEdges, around]
    | true =>
      obtain rfl : z = w + 1 := next
      simp [capColumn, capEdges, around]

theorem mem_sideEdges_iff : (p, q) ∈ (columns segments).flatMap sideEdges ↔ InSide p q := by
  rw [List.mem_flatMap]
  refine ⟨fun ⟨_, _, edge⟩ => inSide_of_mem _ edge, fun inside => ?_⟩
  suffices ∃ z, (p, q) ∈ sideEdges z from this.imp fun _ edge => ⟨mem_columns _, edge⟩
  match p, q, inside with
  | rim false z, rim true _, .inl rfl => exact ⟨z, by simp [sideEdges, around]⟩
  | rim false z, rim true _, .inr rfl => exact ⟨z, by simp [sideEdges, around]⟩
  | rim true z, rim false _, .inl rfl => exact ⟨z - 1, by simp [sideEdges, around]⟩
  | rim true _, rim false w, .inr rfl => exact ⟨w, by simp [sideEdges, around]⟩
  | rim true z, rim true _, rfl => exact ⟨z, by simp [sideEdges, around]⟩
  | rim false _, rim false w, rfl => exact ⟨w, by simp [sideEdges, around]⟩

open scoped Classical in
theorem count_edges (three : 3 ≤ segments) (lowerBelow upperBelow : Bool) :
    (edges lowerBelow upperBelow segments).count (p, q)
      = (if InCap false lowerBelow p q then 1 else 0) + (if InCap true upperBelow p q then 1 else 0)
        + (if InSide p q then 1 else 0) := by
  rw [edges, List.count_append, List.count_append, (nodup_capEdges three false lowerBelow).count,
    (nodup_capEdges three true upperBelow).count, (nodup_sideEdges three).count]
  simp only [mem_capEdges_iff, mem_sideEdges_iff]

/-- Along the rim of a cap that runs as the side does, edges occur twice and not the other way
round. Along the others they occur once each way. -/
theorem count_seam (three : 3 ≤ segments) (lowerBelow upperBelow upper : Bool) (z : ZMod segments) :
    (edges lowerBelow upperBelow segments).count (seam upper z)
      = (if (if upper then upperBelow else lowerBelow) = upper then 1 else 2) ∧
    (edges lowerBelow upperBelow segments).count (seam upper z).swap
      = (if (if upper then upperBelow else lowerBelow) = upper then 1 else 0) := by
  have second := (column_ne three z).2.symm
  cases upper
  · rw [seam, if_neg Bool.false_ne_true, Prod.swap_prod_mk, count_edges three, count_edges three]
    cases lowerBelow <;> simp [InCap, InSide, second]
  · rw [seam, if_pos rfl, Prod.swap_prod_mk, count_edges three, count_edges three]
    cases upperBelow <;> simp [InCap, InSide, second]

theorem count_apart (three : 3 ≤ segments) {lowerBelow upperBelow : Bool}
    {e : Spot segments × Spot segments} (edge : e ∈ edges lowerBelow upperBelow segments)
    (apart : ¬AlongRim e) :
    (edges lowerBelow upperBelow segments).count e = 1 ∧
    (edges lowerBelow upperBelow segments).count e.swap = 1 := by
  obtain ⟨p, q⟩ := e
  rw [Prod.swap_prod_mk, count_edges three, count_edges three]
  rw [edges, List.mem_append, List.mem_append, mem_capEdges_iff, mem_capEdges_iff,
    mem_sideEdges_iff] at edge
  -- Edges that are not along a rim are in one part only, and there both ways.
  match p, q with
  | centre u, centre v => simp [InCap, InSide] at edge
  | centre u, rim v z | rim v z, centre u => cases u <;> cases v <;> simp_all [InCap, InSide]
  | rim true z, rim false w | rim false w, rim true z => simp_all [InCap, InSide]
  | rim true z, rim true w | rim false z, rim false w =>
    refine absurd (alongRim_of_next ?_) apart
    rcases edge with (lower | upper) | side
    · exact lower.next
    · exact upper.next
    · exact side.next

end

/-- The directed edges of a cylinder, with the rims of the caps and the side put on each other. -/
def seamed (tube : Cylinder) : List (Spot tube.segmentCount × Spot tube.segmentCount) :=
  tube.toMesh.edges (weld tube.segmentCount)

/-- A cap is turned if it winds as one at the other end has to. -/
def Turned (tube : Cylinder) (upper : Bool) : Prop :=
  if upper then ¬tube.height / 2 < 0 else -(tube.height / 2) < 0

theorem three_le_segmentCount (tube : Cylinder) : 3 ≤ tube.segmentCount := Nat.le_max_left ..

instance (tube : Cylinder) : NeZero tube.segmentCount :=
  ⟨Nat.ne_zero_of_lt tube.three_le_segmentCount⟩

theorem seamed_eq (tube : Cylinder) (few : 4 * (tube.segmentCount + 1) < 2 ^ 32) :
    tube.seamed = edges (-(tube.height / 2) < 0) (tube.height / 2 < 0) tube.segmentCount := by
  rw [← edges_faces]
  exact Mesh.edges_ofSurface _ few below_faces

theorem turned_iff (tube : Cylinder) (upper : Bool) :
    tube.Turned upper ↔ ¬(if upper then decide (tube.height / 2 < 0)
      else decide (-(tube.height / 2) < 0)) = upper := by
  cases upper <;> simp [Turned]

section
variable {tube : Cylinder} (few : 4 * (tube.segmentCount + 1) < 2 ^ 32) {upper : Bool}
  (z : ZMod tube.segmentCount)

include few

theorem count_turned (turned : tube.Turned upper) :
    tube.seamed.count (seam upper z) = 2 ∧ tube.seamed.count (seam upper z).swap = 0 := by
  rw [turned_iff] at turned
  obtain ⟨along, back⟩ := count_seam tube.three_le_segmentCount _ _ upper z
  rw [if_neg turned] at along back
  rw [tube.seamed_eq few]
  exact ⟨along, back⟩

theorem count_fitting (fitting : ¬tube.Turned upper) :
    tube.seamed.count (seam upper z) = 1 ∧ tube.seamed.count (seam upper z).swap = 1 := by
  rw [turned_iff, not_not] at fitting
  obtain ⟨along, back⟩ := count_seam tube.three_le_segmentCount _ _ upper z
  rw [if_pos fitting] at along back
  rw [tube.seamed_eq few]
  exact ⟨along, back⟩

end

open Number

/-- A cylinder is closed and wound one way everywhere just if half its height is below zero. If its
height is above zero, the upper cap is turned inside out, and so is the lower one unless the height
is so small that half of it is zero: the edges of their rims occur twice, and not the other way
round. All others occur once each way. -/
theorem rims_of_turned (tube : Cylinder) (few : 4 * (tube.segmentCount + 1) < 2 ^ 32) :
    (∀ upper z, tube.Turned upper →
      tube.seamed.count (seam upper z) = 2 ∧ tube.seamed.count (seam upper z).swap = 0) ∧
    (∀ upper z, ¬tube.Turned upper →
      tube.seamed.count (seam upper z) = 1 ∧ tube.seamed.count (seam upper z).swap = 1) ∧
    (∀ e ∈ tube.seamed, ¬AlongRim e → tube.seamed.count e = 1 ∧ tube.seamed.count e.swap = 1) ∧
    (0 < tube.height →
      tube.Turned true ∧ (tube.Turned false ↔ ¬Stands tube.height (2 ^ (-149 : ℤ)))) ∧
    (Closed tube.seamed ↔ tube.height / 2 < 0) := by
  have apart : ∀ e ∈ tube.seamed, ¬AlongRim e →
      tube.seamed.count e = 1 ∧ tube.seamed.count e.swap = 1 := by
    rw [tube.seamed_eq few]
    exact fun e => count_apart tube.three_le_segmentCount
  refine ⟨fun _ => count_turned few, fun _ => count_fitting few, apart, half_of_pos, ?_, ?_⟩
  · intro closed
    by_contra above
    have turned : tube.Turned true := above
    have twice := count_turned few 0 turned
    have edge : seam true 0 ∈ tube.seamed := List.count_pos_iff.1 (by omega)
    have := (closed _ edge).1
    omega
  · intro below e edge
    have fitting : ∀ upper, ¬tube.Turned upper := by
      rintro (_ | _)
      · exact not_neg_lt_zero below
      · exact not_not.2 below
    by_cases along : AlongRim e
    · obtain ⟨upper, z, rfl | rfl⟩ := along
      · exact count_fitting few z (fitting upper)
      · rw [Prod.swap_swap]
        exact (count_fitting few z (fitting upper)).symm
    · exact apart e edge along

/-- Both caps of an upright cylinder are turned, and the edges within them occur once each way.
Standing on its head, it is closed. -/
theorem rims_of_upright :
    (4 * 4 < 2 ^ 32 ∧ 0 < (Cylinder.mk 1 2 3).height ∧
      (Cylinder.mk 1 2 3).Turned true ∧ (Cylinder.mk 1 2 3).Turned false ∧
      (Cylinder.mk 1 2 3).seamed.count (rim true 0, rim true 1) = 2 ∧
      (Cylinder.mk 1 2 3).seamed.count (rim true 1, rim true 0) = 0 ∧
      (Cylinder.mk 1 2 3).seamed.count (rim false 1, rim false 0) = 2 ∧
      (Cylinder.mk 1 2 3).seamed.count (rim false 0, rim false 1) = 0 ∧
      (Cylinder.mk 1 2 3).seamed.count (centre true, rim true 0) = 1 ∧
      (Cylinder.mk 1 2 3).seamed.count (rim true 0, centre true) = 1 ∧
      ¬Closed (Cylinder.mk 1 2 3).seamed) ∧
    ¬(Cylinder.mk 1 (-2) 3).Turned true ∧
    (Cylinder.mk 1 (-2) 3).seamed.count (rim true 0, rim true 1) = 1 ∧
    Closed (Cylinder.mk 1 (-2) 3).seamed := by
  have few : 4 * ((Cylinder.mk 1 2 3).segmentCount + 1) < 2 ^ 32 := by decide
  have few' : 4 * ((Cylinder.mk 1 (-2) 3).segmentCount + 1) < 2 ^ 32 := by decide
  obtain ⟨turned, -, apart, high, closed⟩ := rims_of_turned ⟨1, 2, 3⟩ few
  obtain ⟨-, fitting, -, -, closed'⟩ := rims_of_turned ⟨1, -2, 3⟩ few'
  have upper : (Cylinder.mk 1 2 3).Turned true := (high (by decide)).1
  have lower : (Cylinder.mk 1 2 3).Turned false := by
    change -((2 : Float32) / 2) < 0
    decide
  have upper' : ¬(Cylinder.mk 1 (-2) 3).Turned true := by
    change ¬¬(-2 : Float32) / 2 < 0
    decide
  obtain ⟨up, down⟩ := turned true 0 upper
  obtain ⟨left, right⟩ := turned false 0 lower
  have spoke : (centre true, rim true 0) ∈ (Cylinder.mk 1 2 3).seamed := by decide
  obtain ⟨out, back⟩ := apart _ spoke (by rintro ⟨_ | _, z, edge | edge⟩ <;> cases edge)
  exact ⟨⟨by decide, by decide, upper, lower, up, down, left, right, out, back,
    fun h => upper (closed.1 h)⟩, upper', (fitting true 0 upper').1, closed'.2 (by decide)⟩

end Cylinder
end MeshFlow
