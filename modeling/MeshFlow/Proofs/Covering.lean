import MeshFlow.Proofs.Patterns
import MeshFlow.Proofs.Spreading

set_option autoImplicit false

/-!
# Instances on vertices

A block that places instances on the vertices of a base and removes duplicates goes by the patterns
of the points: where the density leaves nothing to chance, every point of the base is placed at
exactly once. Points that are equal as numbers may still have two patterns, but only where one has a
zero that the other has with the other sign; such points are placed at twice.
-/
namespace MeshFlow
open Space Program Block Number

namespace Space.Vec3

/-- No coordinate is not a number. -/
def IsNumeric (a : Vec3) : Prop := a.x.isNaN = false ∧ a.y.isNaN = false ∧ a.z.isNaN = false

/-- Every coordinate is the same, up to the sign of a zero. -/
def SameUpToZeros (a b : Vec3) : Prop :=
  (a.x = b.x ∨ IsZero a.x ∧ IsZero b.x) ∧ (a.y = b.y ∨ IsZero a.y ∧ IsZero b.y) ∧
    (a.z = b.z ∨ IsZero a.z ∧ IsZero b.z)

theorem SameUpToZeros.symm {a b : Vec3} (h : a.SameUpToZeros b) : b.SameUpToZeros a :=
  ⟨h.1.imp Eq.symm And.symm, h.2.1.imp Eq.symm And.symm, h.2.2.imp Eq.symm And.symm⟩

theorem beq_eq_true_iff {a : Vec3} (numeric : a.IsNumeric) (b : Vec3) :
    (a == b) = true ↔ a.SameUpToZeros b := by
  have parts : (a == b) = (a.x == b.x && (a.y == b.y && a.z == b.z)) := rfl
  obtain ⟨hx, hy, hz⟩ := numeric
  rw [parts, Bool.and_eq_true, Bool.and_eq_true, Number.beq_eq_true_iff, Number.beq_eq_true_iff,
    Number.beq_eq_true_iff]
  simp only [hx, hy, hz, and_true, SameUpToZeros]

end Space.Vec3

theorem pointBits_injective {a b : Vec3} (same : pointBits a = pointBits b) : a = b := by
  obtain ⟨x, y, z⟩ := a
  obtain ⟨x', y', z'⟩ := b
  simp only [pointBits, Prod.mk.injEq] at same
  rw [toBits_injective same.1, toBits_injective same.2.1, toBits_injective same.2.2]

section
variable {α : Type} [BEq α] [Hashable α]

/-- What of a list has not been seen, each of it where it comes first. -/
def unseen (seen : Std.HashSet α) (xs : List α) : List α :=
  (xs.filter fun x => !seen.contains x).eraseDups

theorem unseen_empty (xs : List α) : unseen ∅ xs = xs.eraseDups := by
  simp [unseen]

theorem unseen_cons_of_seen {seen : Std.HashSet α} {x : α} (again : seen.contains x = true)
    (xs : List α) : unseen seen (x :: xs) = unseen seen xs := by
  simp [unseen, again]

theorem unseen_cons [LawfulBEq α] {seen : Std.HashSet α} {x : α}
    (new : seen.contains x = false) (xs : List α) :
    unseen seen (x :: xs) = x :: unseen (seen.insert x) xs := by
  simp only [unseen, List.filter_cons, new, Bool.not_false, if_true, List.eraseDups_cons,
    List.filter_filter]
  congr 2
  refine List.filter_congr fun y _ => ?_
  rw [Std.HashSet.contains_insert, Bool.not_or, BEq.comm]

end

def Placement.Alike (p q : Placement) : Prop :=
  ∃ a b, p.step.position = some a ∧ q.step.position = some b ∧ a.SameUpToZeros b

theorem Placement.Alike.symm {p q : Placement} (h : p.Alike q) : q.Alike p := by
  obtain ⟨a, b, ha, hb, same⟩ := h
  exact ⟨b, a, hb, ha, same.symm⟩

namespace Graph

/-- A placement on a vertex of the base, with the vertex, its point and its normal told. -/
def PlacesOnVertex (g : Graph) (id : BlockId) (base : Mesh) (outer : Contexts) (s : Session)
    (p : Placement) (s' : Session) : Prop :=
  ∃ point, base.points[p.step.index]? = some point ∧
    p.step = { Execution.atStep id p.step.index with
      loopIndex := p.step.loopIndex
      position := some point
      normal := base.normal? p.step.index } ∧
    g.Places id overInputs outer s p s'

variable {g : Graph} {s : Session} {id : BlockId} {base : Mesh} {outer : Contexts}

theorem runProgram_isPassedOver {density : Float32} (dense : ¬ density < 1) :
    g.runProgram g.supplier id (isPassedOver density) = pure false := by
  rw [isPassedOver, if_neg dense]
  rfl

theorem InOrder.ends_placeOnVertex (order : g.InOrder) (outer : Contexts) (orderly : s.Orderly g)
    {density : Float32} (dense : ¬ density < 1) {progress : VertexProgress} {entry : Vec3 × Nat}
    (mem : base.points[entry.2]? = some entry.1)
    (new : progress.seen.contains (pointBits entry.1) = false) :
    Ends (g.runProgram g.supplier id
        (placeOnVertex id true outer (.of base) density progress entry)) s
      fun progress' s' => s'.Orderly g ∧ ∃ p, g.PlacesOnVertex id base outer s p s' ∧
        p.step.position = some entry.1 ∧ p.step.loopIndex = progress.placed ∧
        progress' = ⟨progress.seen.insert (pointBits entry.1), progress.placed + 1,
          Placement.onto progress.copies p⟩ := by
  obtain ⟨point, vertex⟩ := entry
  rw [placeOnVertex]
  simp only [new, Bool.and_false, Bool.false_eq_true, if_false, if_true]
  rw [ends_runProgram_bind, runProgram_isPassedOver dense, ends_pure, if_neg Bool.false_ne_true,
    ends_runProgram_bind]
  let step : Execution := { Execution.atStep id vertex with
    loopIndex := progress.placed, position := some point, normal := base.normal? vertex }
  have ends : Ends (g.runProgram g.supplier id
      (placeAt overInputs outer step step.position progress.copies)) s _ :=
    order.ends_placeAt orderly overInputs outer step progress.copies
  rw [show (IndexedMesh.of base).normal? vertex = base.normal? vertex from
    (IndexedMesh.of base).normal?_eq vertex]
  refine ends.mono ?_
  rintro _ s' ⟨orderly', ⟨own, pulled⟩, places, rfl, rfl⟩
  refine (ends_return ..).2 ⟨orderly', ⟨step, pulled⟩, ⟨point, mem, rfl, places⟩, rfl, rfl, rfl⟩

theorem ends_placeOnVertex_of_seen (outer : Contexts) {density : Float32}
    {progress : VertexProgress} {entry : Vec3 × Nat}
    (again : progress.seen.contains (pointBits entry.1) = true)
    (post : VertexProgress → Session → Prop) :
    Ends (g.runProgram g.supplier id
        (placeOnVertex id true outer (.of base) density progress entry)) s post ↔
      post progress s := by
  rw [placeOnVertex]
  simp only [again, Bool.and_self, if_true]
  exact ends_return ..

/-- The vertices at points not seen before are placed at, in order and numbered without gap. -/
theorem InOrder.ends_placeOnVertices (order : g.InOrder) {density : Float32}
    (dense : ¬ density < 1) (entries : List (Vec3 × Nat))
    (mem : ∀ e ∈ entries, base.points[e.2]? = some e.1) {s : Session} (orderly : s.Orderly g)
    (progress : VertexProgress) :
    Ends (g.runProgram g.supplier id
        (forEach (placeOnVertex id true outer (.of base) density) entries progress)) s
      fun progress' s' => ∃ placements,
        Steps (g.PlacesOnVertex id base outer) s placements s' ∧
        placements.map (fun p => p.step.position.map pointBits)
          = (unseen progress.seen (entries.map fun e => pointBits e.1)).map some ∧
        placements.map (·.step.loopIndex) = List.range' progress.placed placements.length ∧
        progress'.copies = placements.foldl Placement.onto progress.copies := by
  induction entries generalizing s progress with
  | nil => exact (ends_return ..).2 ⟨[], .nil s, by simp [unseen], by simp, rfl⟩
  | cons entry rest ih =>
    have first := mem entry (by simp)
    have others := fun e he => mem e (List.mem_cons_of_mem entry he)
    refine (ends_runProgram_bind ..).2 ?_
    cases seen : progress.seen.contains (pointBits entry.1) with
    | true =>
      rw [ends_placeOnVertex_of_seen outer seen, List.map_cons, unseen_cons_of_seen seen]
      exact ih others orderly progress
    | false =>
      refine (order.ends_placeOnVertex outer orderly dense first seen).mono ?_
      rintro progress' s' ⟨orderly', p, places, position, number, rfl⟩
      refine (ih others orderly' _).mono ?_
      rintro progress'' s'' ⟨placements, made, patterns, numbers, copies⟩
      refine ⟨p :: placements, .cons places made, ?_, ?_, copies⟩
      · rw [List.map_cons, List.map_cons, unseen_cons seen, List.map_cons, patterns, position]
        rfl
      · rw [List.map_cons, numbers, number, List.length_cons, List.range'_succ]

/-- Instances on the vertices of a base: placements one after the other, numbered without gap, at
every point of the base once. -/
structure Covers (g : Graph) (id : BlockId) (base : Mesh) (outer : Contexts) (s : Session)
    (placements : List Placement) (v : Value) : Prop where
  made : ∃ s', Steps (g.PlacesOnVertex id base outer) s placements s'
  numbered : Placement.Numbered outer placements placements.length
  reaches : ∀ a, (∃ p ∈ placements, p.step.position = some a) ↔ a ∈ base.points
  once : placements.Pairwise fun p q => p.step.position ≠ q.step.position
  /-- No two placements are at points that are equal as numbers, unless the base itself has two
  that differ in the signs of zeros alone. -/
  apart_iff : (∀ a ∈ base.points, a.IsNumeric) →
    ((placements.Pairwise fun p q => (p.step.position == q.step.position) = false) ↔
      ∀ a ∈ base.points, ∀ b ∈ base.points, a.SameUpToZeros b → a = b)
  value : v = .ofMesh? (Mesh.mergeAll? (Placement.copies placements))

/-- Where every placement has a point and every point one placement, that two placements are at
points equal as numbers can only come from two points of the base. -/
theorem apart_iff_of_once {placements : List Placement} {points : List Vec3}
    (stands : ∀ p ∈ placements, ∃ a ∈ points, p.step.position = some a)
    (reached : ∀ a ∈ points, ∃ p ∈ placements, p.step.position = some a)
    (once : placements.Pairwise fun p q => p.step.position ≠ q.step.position)
    (numeric : ∀ a ∈ points, a.IsNumeric) :
    (placements.Pairwise fun p q => (p.step.position == q.step.position) = false) ↔
      ∀ a ∈ points, ∀ b ∈ points, a.SameUpToZeros b → a = b := by
  have compares : ∀ p ∈ placements, ∀ q ∈ placements,
      ((p.step.position == q.step.position) = false ↔ ¬ p.Alike q) := by
    intro p hp q hq
    obtain ⟨a, mem, ha⟩ := stands p hp
    obtain ⟨b, -, hb⟩ := stands q hq
    have points : (p.step.position == q.step.position) = (a == b) := by rw [ha, hb]; rfl
    have alike : p.Alike q ↔ a.SameUpToZeros b := by simp [Placement.Alike, ha, hb]
    rw [points, alike, ← Vec3.beq_eq_true_iff (numeric a mem), Bool.not_eq_true]
  constructor
  · intro apart a ha b hb same
    obtain ⟨p, hp, at_a⟩ := reached a ha
    obtain ⟨q, hq, at_b⟩ := reached b hb
    by_contra differ
    have unlike : placements.Pairwise fun p q => ¬ p.Alike q :=
      apart.imp_of_mem fun hp hq => (compares _ hp _ hq).1
    have other : p ≠ q := by
      rintro rfl
      exact differ (Option.some.inj (at_a.symm.trans at_b))
    have symm : Std.Symm fun p q : Placement => ¬ p.Alike q :=
      ⟨fun _ _ unlike alike => unlike alike.symm⟩
    exact unlike.forall hp hq other ⟨a, b, at_a, at_b, same⟩
  · intro sole
    refine once.imp_of_mem fun {p q} hp hq differ => (compares p hp q hq).2 ?_
    rintro ⟨a, b, ha, hb, same⟩
    obtain ⟨a', mem, ha'⟩ := stands p hp
    obtain ⟨b', mem', hb'⟩ := stands q hq
    cases ha.symm.trans ha'
    cases hb.symm.trans hb'
    rw [ha, hb, sole a mem b mem' same] at differ
    exact differ rfl

theorem Covers.of_patterns {placements : List Placement} {s' : Session}
    (made : Steps (g.PlacesOnVertex id base outer) s placements s')
    (patterns : placements.map (fun p => p.step.position.map pointBits)
      = ((base.points.map pointBits).eraseDups).map some)
    (numbers : placements.map (·.step.loopIndex) = List.range placements.length) :
    g.Covers id base outer s placements (merged (placements.foldl Placement.onto [])) := by
  have stands : ∀ p ∈ placements, ∃ a ∈ base.points, p.step.position = some a := by
    intro p hp
    obtain ⟨_, _, a, found, step, -⟩ := made.exists_of_mem hp
    exact ⟨a, List.mem_of_getElem? found, by rw [step]⟩
  have reaches : ∀ a, (∃ p ∈ placements, p.step.position = some a) ↔ a ∈ base.points := by
    intro a
    refine ⟨?_, fun mem => ?_⟩
    · rintro ⟨p, hp, position⟩
      obtain ⟨b, mem, same⟩ := stands p hp
      cases position.symm.trans same
      exact mem
    · have placed : some (pointBits a) ∈ placements.map fun p => p.step.position.map pointBits := by
        rw [patterns]
        exact List.mem_map_of_mem (List.mem_eraseDups.2 (List.mem_map_of_mem mem))
      obtain ⟨p, hp, same⟩ := List.mem_map.1 placed
      obtain ⟨b, position, same⟩ := Option.map_eq_some_iff.1 same
      exact ⟨p, hp, by rw [position, pointBits_injective same]⟩
  have once : placements.Pairwise fun p q => p.step.position ≠ q.step.position := by
    have distinct : (placements.map fun p => p.step.position.map pointBits).Nodup := by
      rw [patterns]
      exact (nodup_eraseDups _).map (Option.some_injective _)
    refine (List.pairwise_map.1 distinct).imp fun differ same => ?_
    exact differ (congrArg (Option.map pointBits) same)
  exact ⟨⟨s', made⟩, Placement.numbered_of_loopIndex numbers, reaches, once,
    apart_iff_of_once stands (fun a mem => (reaches a).2 mem) once, merged_foldl placements⟩

/-- From a session where there is a base with positions, and its density leaves nothing to chance,
instances are placed on the vertices of the base. -/
def CoversFrom (g : Graph) (id : BlockId) (s : Session) (v : Value) : Prop :=
  ∀ base s₁ density s₂,
    (g.readMesh? g.supplier (.input id 0)).run s = some (some base, s₁) →
    base.hasPositions = true →
    (g.readFloat g.supplier (.input id 2) 1).run s₁ = some (density, s₂) → ¬ density < 1 →
    ∃ placements, g.Covers id base { s.contexts with geometry := some (.of base) } s₂ placements v

theorem InOrder.ends_instantiateOnVertices (order : g.InOrder) (orderly : s.Orderly g) :
    Ends (g.runProgram g.supplier id (instantiateOnVerticesProgram id true)) s fun v _ =>
      g.CoversFrom id s v := by
  refine (order.ends_program orderly id (restores_inScope _)).mono ?_
  rintro v t ⟨-, run⟩ base s₁ density s₂ read positions weighed dense
  have on : s.GoesOn g s₁ := ((order.ends_mesh? orderly 0).of_run read).1
  have on' : s₁.GoesOn g s₂ :=
    ((order.ends_program on.orderly id (plain_float 2 1).restores).of_run weighed).1
  have ends : Ends (g.runProgram g.supplier id (instantiateOnVerticesProgram id true)) s fun v _ =>
      ∃ placements,
        g.Covers id base { s.contexts with geometry := some (.of base) } s₂ placements v := by
    have found : (g.runProgram g.supplier id (baseMesh? id false)).run s = some (some base, s₁) :=
      run_baseMesh? read positions nofun
    rw [instantiateOnVerticesProgram, ends_inScope, ends_runProgram_bind, ends_iff_of_run found]
    dsimp only
    rw [ends_runProgram_bind, runProgram_float, ends_iff_of_run weighed, ends_runProgram_bind,
      ends_currentContexts, ends_runProgram_bind, on'.contexts.trans on.contexts]
    have vertices : ∀ e ∈ base.points.zipIdx, base.points[e.2]? = some e.1 :=
      fun e he => List.mem_zipIdx_iff_getElem?.1 he
    refine (order.ends_placeOnVertices dense base.points.zipIdx vertices on'.orderly {}).mono ?_
    rintro progress _ ⟨placements, made, patterns, numbers, copies⟩
    rw [unseen_empty] at patterns
    rw [copies]
    refine (ends_joined ..).2 ⟨placements, .of_patterns made ?_ ?_⟩
    · have bits : base.points.zipIdx.map (fun e => pointBits e.1) = base.points.map pointBits := by
        conv_rhs => rw [← List.zipIdx_map_fst 0 base.points, List.map_map]
        rfl
      rw [patterns, bits]
    · rw [numbers, List.range_eq_range']
  exact ends.of_run run

/-- At any moment of a pass, a block that places instances on vertices and removes duplicates makes
one placement for every point of its base, numbered from zero on without gap, if its base has
positions and its density is not below one. No two are at points equal as numbers exactly if no two
points of the base differ in the signs of zeros alone. -/
theorem ReachableWith.covers (h : g.ReachableWith Block.IsStandard) {n : Node} {everyRead : Bool}
    (hn : g.node? id = some n) (hb : n.block = .instantiateOnVertices everyRead true) :
    g.Evaluates id n (instantiateOnVerticesProgram id true) (g.CoversFrom id) := by
  have order := ReachableWith.inOrder h
  exact order.evaluates hn hb (List.cons_ne_nil _ _) rfl fun s underway =>
    order.ends_instantiateOnVertices (underway.orderly order)

def origin : Vec3 := ⟨0, 0, 0⟩

def mirrored : Vec3 := ⟨Float32.ofBits 0x80000000, 0, 0⟩

def twofold : Graph :=
  [.add "base" (.pointList [origin, mirrored]), .add "item" (.mesh (some Mesh.spot) false),
    .add "copies" (.instantiateOnVertices true true), .connectUnchecked (.output 0 0) (.input 2 0),
    .connectUnchecked (.output 1 0) (.input 2 1)].foldl Edit.apply .empty

theorem reachable_twofold : twofold.ReachableWith Block.IsStandard := by
  refine ReachableBy.foldl .empty _ ?_
  refine ⟨⟨?_, trivial⟩, ⟨?_, trivial⟩, ⟨?_, trivial⟩, ⟨trivial, trivial⟩, ⟨trivial, trivial⟩,
    trivial⟩ <;> decide +kernel

/-- Both are placed at, though they are equal as numbers. -/
theorem covers_twofold :
    Ends (twofold.runProgram twofold.supplier 2 (instantiateOnVerticesProgram 2 true)) (.start {})
      fun v _ => ∃ base outer s placements, twofold.Covers 2 base outer s placements v ∧
        base.points = [origin, mirrored] ∧
        ¬ placements.Pairwise fun p q => (p.step.position == q.step.position) = false := by
  obtain ⟨n, hn, hb⟩ : ∃ n, twofold.node? 2 = some n ∧ n.block = .instantiateOnVertices true true :=
    ⟨_, rfl, rfl⟩
  refine ((ReachableWith.covers reachable_twofold hn hb).runs _ (.start {})).mono ?_
  intro v _ covers
  obtain ⟨base, s₁, read, positions, points, s₂, weighed⟩ : ∃ base s₁,
      (twofold.readMesh? twofold.supplier (.input 2 0)).run (.start {}) = some (some base, s₁) ∧
      base.hasPositions = true ∧ base.points = [origin, mirrored] ∧ ∃ s₂,
        (twofold.readFloat twofold.supplier (.input 2 2) 1).run s₁ = some (1, s₂) :=
    ⟨_, _, rfl, rfl, rfl, _, rfl⟩
  obtain ⟨placements, made⟩ := covers base s₁ 1 s₂ read positions weighed (by decide +kernel)
  refine ⟨base, _, _, placements, made, points, fun apart => ?_⟩
  have numeric : ∀ a ∈ base.points, a.IsNumeric := by
    rw [points]
    simp only [List.mem_cons, List.not_mem_nil, or_false]
    rintro a (rfl | rfl) <;> exact ⟨by decide +kernel, by decide +kernel, by decide +kernel⟩
  have same : origin.SameUpToZeros mirrored :=
    ⟨.inr ⟨.inl (by decide +kernel), .inr (by decide +kernel)⟩, .inl rfl, .inl rfl⟩
  have equal := (made.apart_iff numeric).1 apart origin (by simp [points]) mirrored
    (by simp [points]) same
  have bits := congrArg pointBits equal
  exact absurd bits (by decide +kernel)

end Graph
end MeshFlow
