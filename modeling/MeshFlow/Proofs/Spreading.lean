import MeshFlow.Proofs.Effort
import MeshFlow.Proofs.Placing
import MeshFlow.Proofs.ValidPasses

set_option autoImplicit false

/-!
# Instances spread over faces

The faces of a base are gone through in order, and each takes what brings the number placed up to the
whole part of a running share. The share is rounded, and may come to anything at all: it only decides
how the placements fall to the faces. None goes beyond the count, and the last face takes all that is
left, so that exactly as many placements are made as the count says, numbered without gap. What is
pulled need not be valid: an index of it may be so high that it cannot be moved up, and then nothing
comes of the placements.
-/
namespace MeshFlow
open Space Program Block

theorem slice?_triple {α : Type} : (xs : List α) → (i : Nat) →
    slice? (i * 3) (i * 3 + 3) xs = ((triples xs)[i]?).map fun (a, b, c) => [a, b, c]
  | x :: y :: z :: rest, 0 => by
    rw [triples_cons]
    simp [slice?]
  | x :: y :: z :: rest, i + 1 => by
    have shift : (i + 1) * 3 = i * 3 + 3 := by omega
    have step : slice? (i * 3 + 3) (i * 3 + 3 + 3) (x :: y :: z :: rest)
        = slice? (i * 3) (i * 3 + 3) rest := by simp [slice?]
    rw [triples_cons, List.getElem?_cons_succ, shift, step, slice?_triple rest i]
  | [], i | [_], i | [_, _], i => by
    rw [slice?, if_neg (by simp)]
    simp [triples, triplesAfter]

namespace Mesh

def FaceInRange (m : Mesh) (face : Nat) : Prop :=
  ∃ a b c, m.face? face = some [a, b, c] ∧
    a.toNat < m.vertexCount ∧ b.toNat < m.vertexCount ∧ c.toNat < m.vertexCount

theorem exists_corners?_iff (m : Mesh) (f : UInt32 × UInt32 × UInt32) :
    (∃ t, corners? m.points.toArray f = some t) ↔
      f.1.toNat < m.vertexCount ∧ f.2.1.toNat < m.vertexCount ∧ f.2.2.toNat < m.vertexCount := by
  have found : ∀ i : Nat, (∃ p, m.points.toArray[i]? = some p) ↔ i < m.vertexCount := by
    intro i
    rw [← Option.isSome_iff_exists, List.getElem?_toArray, isSome_getElem?, m.length_points]
  simp only [← found, corners?]
  constructor
  · rintro ⟨t, ht⟩
    simp only [Option.bind_eq_bind, Option.bind_eq_some_iff] at ht
    obtain ⟨a, ha, b, hb, c, hc, -⟩ := ht
    exact ⟨⟨a, ha⟩, ⟨b, hb⟩, ⟨c, hc⟩⟩
  · rintro ⟨⟨a, ha⟩, ⟨b, hb⟩, ⟨c, hc⟩⟩
    exact ⟨⟨a, b, c⟩, by simp [ha, hb, hc]⟩

theorem mem_triangles_iff (m : Mesh) (face : Nat) (t : Triangle) :
    (face, t) ∈ m.triangles ↔
      ∃ f, m.faces[face]? = some f ∧ corners? m.points.toArray f = some t := by
  simp only [triangles, List.mem_filterMap, List.mem_zipIdx_iff_getElem?]
  constructor
  · rintro ⟨⟨f, number⟩, found, made⟩
    obtain ⟨t, corners, same⟩ := Option.map_eq_some_iff.1 made
    cases same
    exact ⟨f, found, corners⟩
  · rintro ⟨f, found, corners⟩
    exact ⟨(f, face), found, by rw [corners, Option.map_some]⟩

theorem exists_triangle_iff (m : Mesh) (face : Nat) :
    (∃ t, (face, t) ∈ m.triangles) ↔ m.FaceInRange face := by
  have faces : ∀ xs, m.face? face = some xs ↔
      ∃ f, m.faces[face]? = some f ∧ xs = [f.1, f.2.1, f.2.2] := by
    intro xs
    rw [face?, Mesh.faces]
    cases m.indices with
    | none => simp [triples, triplesAfter]
    | some indices =>
      rw [Option.bind_some, Option.getD_some, slice?_triple]
      simp [eq_comm]
  simp only [mem_triangles_iff, FaceInRange, faces]
  constructor
  · rintro ⟨t, f, found, corners⟩
    exact ⟨_, _, _, ⟨f, found, rfl⟩, (m.exists_corners?_iff f).1 ⟨t, corners⟩⟩
  · rintro ⟨_, _, _, ⟨⟨a, b, c⟩, found, same⟩, within⟩
    cases same
    obtain ⟨t, corners⟩ := (m.exists_corners?_iff (a, b, c)).2 within
    exact ⟨t, (a, b, c), found, corners⟩

theorem triangles_sorted (m : Mesh) : m.triangles.Pairwise fun x y => x.1 < y.1 := by
  have numbers : m.faces.zipIdx.Pairwise fun x y => x.2 < y.2 := by
    rw [← List.pairwise_map, List.zipIdx_map_snd]
    exact List.pairwise_lt_range'
  rw [triangles, List.pairwise_filterMap]
  refine numbers.imp ?_
  rintro ⟨f, i⟩ ⟨f', i'⟩ less b hb b' hb'
  obtain ⟨t, -, rfl⟩ := Option.map_eq_some_iff.1 hb
  obtain ⟨t', -, rfl⟩ := Option.map_eq_some_iff.1 hb'
  exact less

end Mesh

/-- What has been left out of a base is reported before the first placement. -/
def Session.notingSkipped (s : Session) (id : BlockId) (base : Mesh) : Session :=
  let skipped := base.faceCount - base.triangles.length
  if 0 < skipped then s.record (.invalidGeometry id s!"{skipped} faces reference missing vertices")
  else s

theorem Session.contexts_notingSkipped (s : Session) (id : BlockId) (base : Mesh) :
    (s.notingSkipped id base).contexts = s.contexts := by
  rw [Session.notingSkipped]
  split
  · exact s.contexts_record _
  · rfl

theorem Session.Orderly.notingSkipped {g : Graph} {s : Session} (h : s.Orderly g) (id : BlockId)
    (base : Mesh) : (s.notingSkipped id base).Orderly g := by
  rw [Session.notingSkipped]
  split
  · exact h.record _
  · exact h

namespace Graph

/-- A placement on a triangle of the base: two numbers are drawn, and the instance is pulled for the
point that they sample, with the face and its normal told. -/
def PlacesOnFace (g : Graph) (id : BlockId) (base : Mesh) (outer : Contexts) (s : Session)
    (p : Placement) (s' : Session) : Prop :=
  ∃ t, (p.step.faceIndex, t) ∈ base.triangles ∧
    p.step = { Execution.atStep id p.step.loopIndex with
      faceIndex := p.step.faceIndex
      position := some (t.sample s.generator.unit.1 s.generator.unit.2.unit.1)
      normal := some t.normal } ∧
    g.Places id overInputs outer { s with generator := s.generator.unit.2.unit.2 } p s'

variable {g : Graph} {s : Session} {id : BlockId} {base : Mesh} {outer : Contexts}

theorem InOrder.ends_placeOnFace (order : g.InOrder) (outer : Contexts) (orderly : s.Orderly g)
    {face : Nat} {t : Triangle} (mem : (face, t) ∈ base.triangles) (copies : List Mesh)
    (number : Nat) :
    Ends (g.runProgram g.supplier id (placeOnFace id outer face t copies number)) s
      fun copies' s' => s'.Orderly g ∧ ∃ p, g.PlacesOnFace id base outer s p s' ∧
        (p.step.loopIndex, p.step.faceIndex) = (number, face) ∧
        copies' = Placement.onto copies p := by
  rw [placeOnFace, ends_runProgram_bind, ends_uniform, ends_runProgram_bind, ends_uniform]
  let point := t.sample s.generator.unit.1 s.generator.unit.2.unit.1
  let step : Execution := { Execution.atStep id number with
    faceIndex := face, position := some point, normal := some t.normal }
  let drawn : Session := { s with generator := s.generator.unit.2.unit.2 }
  have orderly' : drawn.Orderly g := orderly.of_same rfl rfl rfl
  have ends : Ends (g.runProgram g.supplier id
      (placeAt overInputs outer step step.position copies)) drawn _ :=
    order.ends_placeAt orderly' overInputs outer step copies
  refine ends.mono ?_
  rintro _ s' ⟨orderly'', ⟨own, pulled⟩, places, rfl, rfl⟩
  exact ⟨orderly'', ⟨step, pulled⟩, ⟨t, mem, rfl, places⟩, rfl, rfl⟩

/-- What the faces from some of them on are given, where some placements have been made before: the
numbers go on, the faces are these in their order, and once the last one has had its turn all that
is to be placed has been. -/
structure Shares (entries : List ((Nat × Triangle) × Nat)) (count last placed placed' : Nat)
    (placements : List Placement) : Prop where
  le : placed ≤ placed'
  within : placed' ≤ count
  numbers : placements.map (·.step.loopIndex) = List.range' placed (placed' - placed)
  faces : ∀ p ∈ placements, ∃ e ∈ entries, p.step.faceIndex = e.1.1
  sorted : (placements.map (·.step.faceIndex)).Pairwise (· ≤ ·)
  full : (∃ e ∈ entries, e.2 = last) → placed' = count

theorem Shares.of_numbers {entry : (Nat × Triangle) × Nat} {count last placed target : Nat}
    {placements : List Placement} (room : placed ≤ count) (within : target ≤ count)
    (full : entry.2 = last → target = count)
    (numbers : placements.map (fun p => (p.step.loopIndex, p.step.faceIndex))
      = (List.range' placed (target - placed)).map fun i => (i, entry.1.1)) :
    Shares [entry] count last placed (max placed target) placements := by
  have same : ∀ p ∈ placements, p.step.faceIndex = entry.1.1 := by
    intro p hp
    have mem := List.mem_map_of_mem (f := fun p => (p.step.loopIndex, p.step.faceIndex)) hp
    rw [numbers, List.mem_map] at mem
    obtain ⟨i, -, eq⟩ := mem
    exact (congrArg Prod.snd eq).symm
  constructor
  case le => exact Nat.le_max_left ..
  case within => exact Nat.max_le.2 ⟨room, within⟩
  case numbers =>
    have firsts := congrArg (List.map Prod.fst) numbers
    rw [List.map_map, List.map_map] at firsts
    have size : max placed target - placed = target - placed := by omega
    rw [size]
    exact firsts.trans (List.map_id _)
  case faces => exact fun p hp => ⟨entry, List.mem_singleton_self _, same p hp⟩
  case sorted =>
    rw [List.pairwise_map]
    exact List.pairwise_of_forall_mem_list fun p hp q hq => by rw [same p hp, same q hq]
  case full =>
    rintro ⟨e, he, turn⟩
    rw [List.mem_singleton.1 he] at turn
    rw [full turn]
    exact Nat.max_eq_right room

theorem InOrder.ends_placeFaceShare (order : g.InOrder) (orderly : s.Orderly g) {count : Nat}
    (share : Float32) (last : Nat) {progress : FaceProgress} (room : progress.placed ≤ count)
    {entry : (Nat × Triangle) × Nat} (mem : entry.1 ∈ base.triangles) :
    Ends (g.runProgram g.supplier id (placeFaceShare id outer count share last progress entry)) s
      fun progress' s' => s'.Orderly g ∧ ∃ placements,
        Steps (g.PlacesOnFace id base outer) s placements s' ∧
        Shares [entry] count last progress.placed progress'.placed placements ∧
        progress'.copies = placements.foldl Placement.onto progress.copies := by
  rw [placeFaceShare]
  split
  · rename_i full
    refine (ends_return ..).2 ⟨orderly, [], .nil s, ?_, rfl⟩
    exact ⟨le_rfl, room, by simp, by simp, .nil, fun _ => Nat.le_antisymm room full⟩
  · -- Whatever the share has come to, the target is within the count, and is the count on the last
    -- face.
    obtain ⟨target, htarget⟩ : ∃ target, target = if entry.2 = last then count
        else min (Number.toCount (Number.floor (progress.accumulated + share))) count := ⟨_, rfl⟩
    have within : target ≤ count := by
      rw [htarget]
      split
      · exact le_rfl
      · exact Nat.min_le_right ..
    have full : entry.2 = last → target = count := fun turn => by rw [htarget, if_pos turn]
    dsimp only
    rw [← htarget, ends_runProgram_bind]
    refine (ends_forEach (fun p : Placement => (p.step.loopIndex, p.step.faceIndex)) (·, entry.1.1)
      (fun copies number t ok => order.ends_placeOnFace outer ok mem copies number)
      _ _ orderly).mono ?_
    rintro _ s' ⟨orderly', placements, made, numbers, rfl⟩
    exact (ends_return ..).2 ⟨orderly', placements, made, .of_numbers room within full numbers, rfl⟩

theorem Shares.append {entry : (Nat × Triangle) × Nat} {rest : List ((Nat × Triangle) × Nat)}
    {count last placed placed' placed'' : Nat} {ps ps' : List Placement}
    (h : Shares [entry] count last placed placed' ps)
    (h' : Shares rest count last placed' placed'' ps')
    (behind : ∀ e ∈ rest, entry.1.1 < e.1.1) :
    Shares (entry :: rest) count last placed placed'' (ps ++ ps') := by
  have own : ∀ p ∈ ps, p.step.faceIndex = entry.1.1 := by
    intro p hp
    obtain ⟨e, he, same⟩ := h.faces p hp
    rw [same, List.mem_singleton.1 he]
  constructor
  case le => exact h.le.trans h'.le
  case within => exact h'.within
  case numbers =>
    have split : placed'' - placed = (placed' - placed) + (placed'' - placed') := by
      have := h.le
      have := h'.le
      omega
    rw [List.map_append, h.numbers, h'.numbers, split, ← List.range'_append_1,
      Nat.add_sub_cancel' h.le]
  case faces =>
    intro p hp
    rcases List.mem_append.1 hp with first | later
    · exact ⟨entry, by simp, own p first⟩
    · obtain ⟨e, he, same⟩ := h'.faces p later
      exact ⟨e, by simp [he], same⟩
  case sorted =>
    rw [List.map_append, List.pairwise_append]
    refine ⟨h.sorted, h'.sorted, ?_⟩
    simp only [List.mem_map]
    rintro _ ⟨p, hp, rfl⟩ _ ⟨q, hq, rfl⟩
    obtain ⟨e, he, same⟩ := h'.faces q hq
    rw [own p hp, same]
    exact Nat.le_of_lt (behind e he)
  case full =>
    rintro ⟨e, he, turn⟩
    rcases List.mem_cons.1 he with rfl | later
    · have := h.full ⟨e, by simp, turn⟩
      have := h'.le
      have := h'.within
      omega
    · exact h'.full ⟨e, later, turn⟩

theorem InOrder.ends_placeFaceShares (order : g.InOrder) {count : Nat} (share : Float32) (last : Nat)
    (entries : List ((Nat × Triangle) × Nat)) (mem : ∀ e ∈ entries, e.1 ∈ base.triangles)
    (sorted : entries.Pairwise fun e e' => e.1.1 < e'.1.1) {s : Session} (orderly : s.Orderly g)
    {progress : FaceProgress} (room : progress.placed ≤ count) :
    Ends (g.runProgram g.supplier id
        (forEach (placeFaceShare id outer count share last) entries progress)) s
      fun progress' s' => ∃ placements,
        Steps (g.PlacesOnFace id base outer) s placements s' ∧
        Shares entries count last progress.placed progress'.placed placements ∧
        progress'.copies = placements.foldl Placement.onto progress.copies := by
  induction entries generalizing s progress with
  | nil =>
    refine (ends_return ..).2 ⟨[], .nil s, ?_, rfl⟩
    exact ⟨le_rfl, room, by simp, by simp, .nil, by simp⟩
  | cons entry rest ih =>
    obtain ⟨behind, sorted⟩ := List.pairwise_cons.1 sorted
    refine (ends_runProgram_bind ..).2 ((order.ends_placeFaceShare orderly share last room
      (mem entry (by simp))).mono ?_)
    rintro progress' s' ⟨orderly', placements, made, shares, copies⟩
    refine (ih (fun e he => mem e (by simp [he])) sorted orderly' shares.within).mono ?_
    rintro progress'' s'' ⟨placements', made', shares', copies'⟩
    refine ⟨placements ++ placements', made.append made', shares.append shares' behind, ?_⟩
    rw [copies', copies, List.foldl_append]

/-- Instances spread over a base: placements one after the other, as many as the count says and
numbered so, on faces that come in order and have all their corners. What they come to is seen if no
index overflows, and none does in valid instances of no more than 2³² vertices. -/
structure Spreads (g : Graph) (id : BlockId) (base : Mesh) (count : Nat) (outer : Contexts)
    (s : Session) (placements : List Placement) (v : Value) (s' : Session) : Prop where
  made : ∃ t, Steps (g.PlacesOnFace id base outer) s placements t ∧
    s'.isLost = (t.isLost || Mesh.overflows (Placement.instances placements))
  fits : (∀ m ∈ Placement.instances placements, m.validate = .ok ()) →
    Mesh.totalVertices (Placement.instances placements) ≤ 2 ^ 32 →
    Mesh.overflows (Placement.instances placements) = false
  numbered : Placement.Numbered outer placements count
  told : ∀ p ∈ placements, (outer.placing p.step).lookup .faceId = .ofNat p.step.faceIndex
  sorted : (placements.map (·.step.faceIndex)).Pairwise (· ≤ ·)
  inRange : ∀ p ∈ placements, base.FaceInRange p.step.faceIndex
  null_iff : s'.isLost = false → (v = .null ↔ ∀ p ∈ placements, p.pulled = none)
  gathers : s'.isLost = false → (∀ p ∈ placements, p.pulled ≠ none) →
    ∃ whole, v = .geometry whole ∧
      whole.vertexCount = Mesh.totalVertices (Placement.instances placements) ∧
      ∀ n, (∀ m ∈ Placement.instances placements, m.vertexCount = n) →
        whole.vertexCount = count * n

theorem Spreads.of_shares {entries : List ((Nat × Triangle) × Nat)} {count last : Nat}
    {placements : List Placement} {t s' : Session} (some : 0 < count)
    (made : Steps (g.PlacesOnFace id base outer) s placements t)
    (shares : Shares entries count last 0 count placements)
    (lost : s'.isLost = (t.isLost || Mesh.overflows (Placement.instances placements))) :
    g.Spreads id base count outer s placements
      (merged (placements.foldl Placement.onto [])) s' where
  made := ⟨t, made, lost⟩
  fits valid few := by
    rw [← Bool.not_eq_true]
    intro beyond
    have := Mesh.lt_of_overshootsAfter (fun m hm => (m.validate_eq_ok_iff).1 (valid m hm)) beyond
    omega
  numbered := by
    refine Placement.numbered_of_loopIndex ?_
    rw [shares.numbers, Nat.sub_zero, List.range_eq_range']
  told _ _ := rfl
  sorted := shares.sorted
  inRange p hp := by
    obtain ⟨_, _, t, mem, -⟩ := made.exists_of_mem hp
    exact (base.exists_triangle_iff _).1 ⟨t, mem⟩
  null_iff _ := merged_eq_null_iff placements
  gathers _ pulled := by
    have length : placements.length = count := by
      have numbers := congrArg List.length shares.numbers
      rwa [List.length_map, List.length_range', Nat.sub_zero] at numbers
    obtain ⟨p, hp⟩ : ∃ p, p ∈ placements := List.exists_mem_of_length_pos (length ▸ some)
    obtain ⟨whole, made, joined⟩ := merged_of_pulled ⟨p, hp, pulled p hp⟩
    have vertices := Mesh.vertexCount_mergeAll joined
    rw [Placement.totalVertices_copies] at vertices
    refine ⟨whole, made, vertices, fun n all => ?_⟩
    rw [vertices, Mesh.totalVertices_eq_mul all, Placement.length_instances pulled, length]

/-- What comes of a base and a count: it is asked first whether every pull would be empty, which only
happens where one was; what is left out of the base is reported, and as many instances are spread as
the count says. -/
def SpreadsOver (g : Graph) (id : BlockId) (outer : Contexts) (base : Mesh) (count : Nat)
    (s : Session) (v : Value) (s' : Session) : Prop :=
  ∃ never t, (g.runProgram g.supplier id (neverPlaces 1)).run s = some (never, t) ∧
    (never = true → v = .null ∧ ∃ t' m?,
      (g.readMesh? g.supplier (.input id 1)).run t' = some (m?, t) ∧
        m?.any Mesh.hasPositions = false) ∧
    (never = false → ∃ placements,
      g.Spreads id base count { outer with geometry := some (.of base) }
        (t.notingSkipped id base) placements v s')

/-- From a session where there is a base with positions and a face in range, and the count is
positive, instances are spread over the base. -/
def SpreadsFrom (g : Graph) (id : BlockId) (s : Session) (v : Value) : Prop :=
  ∃ s', (g.runProgram g.supplier id (instantiateOnFacesProgram id)).run s = some (v, s') ∧
    ∀ base s₁ count s₂,
      (g.readMesh? g.supplier (.input id 0)).run s = some (some base, s₁) →
      base.hasPositions = true → (∃ face, base.FaceInRange face) →
      (g.readInt g.supplier (.input id 2) 256).run s₁ = some (count, s₂) → 0 < count.toInt →
      g.SpreadsOver id s.contexts base count.toInt.toNat s₂ v s'

theorem run_baseMesh? {s₁ : Session} {needsFaces : Bool}
    (read : (g.readMesh? g.supplier (.input id 0)).run s = some (some base, s₁))
    (positions : base.hasPositions = true) (faces : needsFaces = true → base.faceCount ≠ 0) :
    (g.runProgram g.supplier id (baseMesh? id needsFaces)).run s = some (some base, s₁) := by
  have ends : Ends (g.runProgram g.supplier id (baseMesh? id needsFaces)) s
      fun base? s' => base? = some base ∧ s' = s₁ := by
    have usable : ¬ (needsFaces && base.faceCount == 0) = true := by
      rw [Bool.and_eq_true, beq_iff_eq]
      exact fun none => faces none.1 none.2
    rw [baseMesh?, ends_runProgram_bind, runProgram_mesh?, ends_iff_of_run read]
    simp only [positions, Bool.not_true, Bool.false_eq_true, if_false, if_neg usable]
    exact (ends_return ..).2 ⟨rfl, rfl⟩
  obtain ⟨_, _, run, rfl, rfl⟩ := ends
  exact run

theorem run_countInput {i : Nat} {usual count : Int32} {s' : Session}
    (read : (g.readInt g.supplier (.input id i) usual).run s = some (count, s')) :
    (g.runProgram g.supplier id (countInput i usual)).run s = some (count.toInt.toNat, s') := by
  have ends : Ends (g.runProgram g.supplier id (countInput i usual)) s
      fun n s'' => n = count.toInt.toNat ∧ s'' = s' := by
    rw [countInput, ends_runProgram_bind, runProgram_int, ends_iff_of_run read]
    exact (ends_return ..).2 ⟨rfl, rfl⟩
  obtain ⟨_, _, run, rfl, rfl⟩ := ends
  exact run

theorem ends_noting (p : Program Value) (post : Value → Session → Prop) :
    Ends (g.runProgram g.supplier id
      (if 0 < base.faceCount - base.triangles.length then do
        report (.invalidGeometry id
          s!"{base.faceCount - base.triangles.length} faces reference missing vertices")
        p
      else p)) s post ↔ Ends (g.runProgram g.supplier id p) (s.notingSkipped id base) post := by
  rw [Session.notingSkipped]
  split
  · rw [ends_runProgram_bind, ends_report]
  · rfl

theorem InOrder.ends_spreadsOver (order : g.InOrder) (orderly : s.Orderly g) {s₁ s₂ : Session}
    {count : Int32} (read : (g.readMesh? g.supplier (.input id 0)).run s = some (some base, s₁))
    (positions : base.hasPositions = true) (some : 0 < base.triangles.length)
    (counted : (g.readInt g.supplier (.input id 2) 256).run s₁ = .some (count, s₂))
    (positive : 0 < count.toInt) :
    Ends (g.runProgram g.supplier id (instantiateOnFacesProgram id)) s fun v s' =>
      g.SpreadsOver id s.contexts base count.toInt.toNat s₂ v s' := by
  have faces : base.faceCount ≠ 0 := by
    have := base.length_triangles_le
    omega
  have nonzero : ¬ (count.toInt.toNat == 0) = true := by
    rw [beq_iff_eq]
    omega
  have on : s.GoesOn g s₁ := ((order.ends_mesh? orderly 0).of_run read).1
  have on' : s₁.GoesOn g s₂ :=
    ((order.ends_program on.orderly id (plain_int 2 256).restores).of_run counted).1
  rw [instantiateOnFacesProgram, ends_inScope, ends_runProgram_bind,
    ends_iff_of_run (run_baseMesh? read positions fun _ => faces)]
  dsimp only
  rw [ends_runProgram_bind, ends_iff_of_run (run_countInput counted), if_neg nonzero,
    ends_runProgram_bind]
  refine (order.ends_program on'.orderly id (restores_neverPlaces _)).mono ?_
  rintro never s₃ ⟨on'', probed⟩
  cases never with
  | true =>
    exact (ends_return ..).2 ⟨true, s₃, probed,
      fun _ => ⟨rfl, (pulls_nothing probed).1⟩, nofun⟩
  | false =>
    rw [if_neg Bool.false_ne_true]
    refine (ends_noting ..).2 ?_
    have contexts : (s₃.notingSkipped id base).contexts = s.contexts :=
      (s₃.contexts_notingSkipped id base).trans
        (on''.contexts.trans (on'.contexts.trans on.contexts))
    have filled : ¬ base.triangles.isEmpty = true := by
      rw [List.isEmpty_iff, ← List.length_eq_zero_iff]
      omega
    rw [if_neg filled, ends_runProgram_bind, ends_currentContexts, contexts, ends_runProgram_bind]
    have sorted : base.triangles.zipIdx.Pairwise fun e e' => e.1.1 < e'.1.1 := by
      have triangles := base.triangles_sorted
      rwa [← List.zipIdx_map_fst 0 base.triangles, List.pairwise_map] at triangles
    refine (order.ends_placeFaceShares _ _ _ (fun e he => List.fst_mem_of_mem_zipIdx he) sorted
      (on''.orderly.notingSkipped id base) (Nat.zero_le _)).mono ?_
    rintro progress _ ⟨placements, made, shares, copies⟩
    have last : ∃ e ∈ base.triangles.zipIdx, e.2 = base.triangles.length - 1 := by
      refine ⟨(base.triangles[base.triangles.length - 1], base.triangles.length - 1), ?_, rfl⟩
      rw [List.mem_zipIdx_iff_getElem?]
      exact List.getElem?_eq_getElem ..
    rw [shares.full last] at shares
    rw [copies]
    refine (ends_joined ..).2 ⟨false, s₃, probed, nofun, fun _ => ?_⟩
    exact ⟨placements, .of_shares (by omega) made shares (Session.isLost_noting ..)⟩

theorem InOrder.ends_instantiateOnFaces (order : g.InOrder) (orderly : s.Orderly g) :
    Ends (g.runProgram g.supplier id (instantiateOnFacesProgram id)) s fun v _ =>
      g.SpreadsFrom id s v := by
  refine (order.ends_program orderly id (restores_inScope _)).mono ?_
  rintro v s' ⟨-, run⟩
  refine ⟨s', run, ?_⟩
  rintro base s₁ count s₂ read positions ⟨face, inRange⟩ counted positive
  obtain ⟨t, mem⟩ := (base.exists_triangle_iff face).2 inRange
  have some : 0 < base.triangles.length := List.length_pos_of_mem mem
  exact (order.ends_spreadsOver orderly read positions some counted positive).of_run run

/-- At any moment of a pass, a block that spreads instances over faces makes just as many placements
as its count says, if that is positive, and if its base has positions and a face with three corners.
They are numbered from zero on without gap, and their faces come in order and have three corners
each; what comes out has the vertices of all that has been pulled, if something has been at every
placement. That is unless an index of what is pulled is so high that it overflows, which takes an
invalid instance or more than 2³² vertices in all. The numbers drawn and the shares that are rounded
have no part in it. -/
theorem ReachableWith.spreads (h : g.ReachableWith Block.IsStandard) {n : Node} {everyRead : Bool}
    (hn : g.node? id = some n) (hb : n.block = .instantiateOnFaces everyRead) :
    g.Evaluates id n (instantiateOnFacesProgram id) (g.SpreadsFrom id) := by
  have order := ReachableWith.inOrder h
  exact order.evaluates hn hb (List.cons_ne_nil _ _) rfl fun s underway =>
    order.ends_instantiateOnFaces (underway.orderly order)

def strewn : Graph :=
  [.add "base" (.mesh (some flag) false), .add "item" (.mesh (some flag) false),
    .add "copies" (.instantiateOnFaces true), .connectUnchecked (.output 0 0) (.input 2 0),
    .connectUnchecked (.output 1 0) (.input 2 1)].foldl Edit.apply .empty

theorem reachable_strewn : strewn.ReachableWith Block.IsStandard := by
  refine ReachableBy.foldl .empty _ ?_
  refine ⟨⟨?_, trivial⟩, ⟨?_, trivial⟩, ⟨?_, trivial⟩, ⟨trivial, trivial⟩, ⟨trivial, trivial⟩,
    trivial⟩ <;> decide +kernel

theorem spreads_strewn :
    Ends (strewn.runProgram strewn.supplier 2 (instantiateOnFacesProgram 2)) (.start {}) fun v _ =>
      ∃ s placements s',
        strewn.Spreads 2 flag 256 { geometry := some (.of flag) } s placements v s' := by
  obtain ⟨n, hn, hb⟩ : ∃ n, strewn.node? 2 = some n ∧ n.block = .instantiateOnFaces true :=
    ⟨_, rfl, rfl⟩
  refine ((ReachableWith.spreads reachable_strewn hn hb).runs _ (.start {})).mono ?_
  rintro v _ ⟨s', -, spreads⟩
  have inRange : flag.FaceInRange 0 := ⟨0, 1, 2, by decide +kernel⟩
  obtain ⟨s₁, read⟩ : ∃ s₁,
      (strewn.readMesh? strewn.supplier (.input 2 0)).run (.start {}) = some (some flag, s₁) :=
    ⟨_, rfl⟩
  obtain ⟨s₂, counted⟩ : ∃ s₂,
      (strewn.readInt strewn.supplier (.input 2 2) 256).run s₁ = some (256, s₂) := ⟨_, rfl⟩
  obtain ⟨never, s₃, probed, -, places⟩ :=
    spreads flag s₁ 256 s₂ read rfl ⟨0, inRange⟩ counted (by decide)
  cases read
  cases counted
  cases probed.symm.trans (show _ = some (false, _) from rfl)
  obtain ⟨placements, made⟩ := places rfl
  exact ⟨_, placements, s', made⟩

end Graph
end MeshFlow
