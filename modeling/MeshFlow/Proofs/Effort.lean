import MeshFlow.Proofs.Validity

set_option autoImplicit false

/-!
# How much a program asks for

Programs go through loops that are as long as the inputs of their block say: over a number of
instances, over faces or vertices of a geometry that has been read, over attempts to find a point.
The requests of a program are counted along every path; what bounds them is known when the loops
start, whatever is read on the way.
-/
namespace MeshFlow
namespace Program
variable {α β σ : Type}

/-- The same program, with its requests counted from a number on. -/
def counted : Program α → Nat → Program (α × Nat)
  | done a, n => done (a, n)
  | read i k, n => read i fun v => (k v).counted (n + 1)
  | adapt i kind k, n => adapt i kind fun v => (k v).counted (n + 1)
  | isConnected i k, n => isConnected i fun b => (k b).counted (n + 1)
  | isVarying i k, n => isVarying i fun b => (k b).counted (n + 1)
  | contexts k, n => contexts fun c => (k c).counted (n + 1)
  | enter c k, n => enter c (k.counted (n + 1))
  | draw k, n => draw fun x => (k x).counted (n + 1)
  | record d k, n => record d (k.counted (n + 1))
  | kept key k, n => kept key fun v => (k v).counted (n + 1)
  | keep key v k, n => keep key v (k.counted (n + 1))

theorem counted_bind (p : Program α) (f : α → Program β) (n : Nat) :
    (p.bind f).counted n = (p.counted n).bind fun r => (f r.1).counted r.2 := by
  induction p generalizing n with
  | done a => rfl
  | read i k ih | adapt i kind k ih | isConnected i k ih | isVarying i k ih | contexts k ih
  | enter c k ih | draw k ih | record d k ih | kept key k ih | keep key v k ih =>
    simp only [bind, counted, ih]

theorem runProgram_counted (g : Graph) (above : Supplier) (owner : BlockId) (p : Program α)
    (n : Nat) :
    (do return (← g.runProgram above owner (p.counted n)).1) = g.runProgram above owner p := by
  induction p generalizing n with
  | done a => rfl
  | isConnected i k ih => simp only [counted, Graph.runProgram, ih]
  | read i k ih | adapt i kind k ih | isVarying i k ih | contexts k ih | enter c k ih | draw k ih
  | record d k ih | kept key k ih | keep key v k ih =>
    simp only [counted, Graph.runProgram, bind_assoc, ih]

variable {A : Answers} {P : α → Nat → Prop} {Q : β → Nat → Prop} {n m : Nat}

/-- On every path, how a program ends goes with how many requests it has made. -/
def Spends (A : Answers) (P : α → Nat → Prop) (p : Program α) : Prop :=
  ∀ c k, (p.counted k).Always A (fun r _ => ∃ n, r.2 = k + n ∧ P r.1 n) c

theorem spends_pure {a : α} (h : P a 0) : (pure a : Program α).Spends A P :=
  fun _ _ => ⟨0, rfl, h⟩

theorem Spends.mono {P' : α → Nat → Prop} {p : Program α} (h : p.Spends A P)
    (le : ∀ a n, P a n → P' a n) : p.Spends A P' :=
  fun c k => (h c k).mono fun _ _ ⟨n, count, holds⟩ => ⟨n, count, le _ n holds⟩

theorem Spends.bind {p : Program α} (h : p.Spends A P) {f : α → Program β}
    (h' : ∀ a n, P a n → (f a).Spends A fun b m => Q b (n + m)) : (p >>= f).Spends A Q := by
  intro c k
  change ((p.bind f).counted k).Always A _ c
  rw [counted_bind, always_bind]
  refine (h c k).mono ?_
  rintro ⟨a, _⟩ c' ⟨n, rfl, holds⟩
  refine (h' a n holds c' (k + n)).mono ?_
  rintro ⟨b, _⟩ - ⟨m, rfl, holds'⟩
  exact ⟨n + m, Nat.add_assoc .., holds'⟩

theorem Spends.ite {p q : Program α} (h : p.Spends A P) (h' : q.Spends A P) (b : Prop)
    [Decidable b] : (if b then p else q).Spends A P := by
  split
  · exact h
  · exact h'

/-- A program makes no more than that many requests. -/
abbrev Takes (A : Answers) (n : Nat) (p : Program α) : Prop := p.Spends A fun _ m => m ≤ n

theorem takes_pure (a : α) (n : Nat) : (pure a : Program α).Takes A n := spends_pure (Nat.zero_le n)

theorem Takes.le {p : Program α} (h : p.Takes A n) (le : n ≤ m) : p.Takes A m :=
  Spends.mono h fun _ _ few => few.trans le

theorem Takes.bind {p : Program α} (h : p.Takes A n) {f : α → Program β}
    (h' : ∀ a, (f a).Takes A m) : (p >>= f).Takes A (n + m) :=
  Spends.bind h fun a _ few => (h' a).mono fun _ _ few' => Nat.add_le_add few few'

theorem Takes.ite {p q : Program α} (h : p.Takes A n) (h' : q.Takes A n) (b : Prop) [Decidable b] :
    (if b then p else q).Takes A n := Spends.ite h h' b

theorem takes_bind {R : α → Prop} {p : Program α} (h : p.Spends A fun a k => k ≤ n ∧ R a)
    {f : α → Program β} (h' : ∀ a, R a → (f a).Takes A m) : (p >>= f).Takes A (n + m) :=
  Spends.bind h fun a _ ⟨few, holds⟩ => (h' a holds).mono fun _ _ few' => Nat.add_le_add few few'

theorem takes_value (i : Nat) : (value i).Takes A 1 := fun _ _ _ _ => ⟨1, rfl, le_rfl⟩

theorem takes_adapted (i : Nat) (kind : Kind) : (adapted i kind).Takes A 1 :=
  fun _ _ _ _ => ⟨1, rfl, le_rfl⟩

theorem takes_connected (i : Nat) : (connected i).Takes A 1 := fun _ _ => ⟨1, rfl, le_rfl⟩

theorem takes_varying (i : Nat) : (varying i).Takes A 1 := fun _ _ _ => ⟨1, rfl, le_rfl⟩

theorem takes_currentContexts : currentContexts.Takes A 1 := fun _ _ => ⟨1, rfl, le_rfl⟩

theorem takes_setContexts (c : Contexts) : (setContexts c).Takes A 1 := fun _ _ => ⟨1, rfl, le_rfl⟩

theorem takes_uniform : uniform.Takes A 1 := fun _ _ _ => ⟨1, rfl, le_rfl⟩

theorem takes_report (d : Diagnostic) : (report d).Takes A 1 := fun _ _ => ⟨1, rfl, le_rfl⟩

theorem takes_handOn (overflows : Bool) (vertices : Nat) (v : Value) :
    (handOn overflows vertices v).Takes A 1 :=
  ((takes_report _).bind fun _ => takes_pure _ 0).ite (takes_pure _ 1) _

theorem takes_keep {key : Int} {v : Value} (known : A.kept key v) :
    (keep key v (.done v)).Takes A 1 := fun _ _ => ⟨known, 1, rfl, le_rfl⟩

theorem takes_float (i : Nat) (fallback : Float32) : (float i fallback).Takes A 1 :=
  (takes_adapted i .float).bind fun _ => takes_pure _ 0

theorem takes_int (i : Nat) (fallback : Int32) : (int i fallback).Takes A 1 :=
  (takes_adapted i .int).bind fun _ => takes_pure _ 0

theorem takes_vec3 (i : Nat) (fallback : Space.Vec3) : (vec3 i fallback).Takes A 1 :=
  (takes_adapted i .vector3).bind fun _ => takes_pure _ 0

theorem takes_matrix? (i : Nat) : (matrix? i).Takes A 1 :=
  (takes_adapted i .matrix).bind fun _ => takes_pure _ 0

theorem takes_mesh? (i : Nat) : (mesh? i).Takes A 1 :=
  (takes_adapted i .geometry).bind fun _ => takes_pure _ 0

theorem takes_contextual (source : ContextualSource) : (contextual source).Takes A 2 :=
  takes_currentContexts.bind fun _ =>
    ((takes_report _).bind fun _ => takes_pure _ 0).ite (takes_pure _ 1) _

theorem takes_inScope {p : Program α} (h : p.Takes A n) : (inScope p).Takes A (n + 2) := by
  have all : (inScope p).Takes A (1 + (n + (1 + 0))) :=
    takes_currentContexts.bind fun outer => h.bind fun _ =>
      (takes_setContexts outer).bind fun _ => takes_pure _ 0
  exact all.le (by omega)

theorem spends_forEach (Inv : σ → Nat → Prop) {step : σ → α → Program σ} {xs : List α}
    (h : ∀ s n, Inv s n → ∀ x ∈ xs, (step s x).Spends A fun s' m => Inv s' (n + m)) {s : σ}
    {n : Nat} (start : Inv s n) : (forEach step xs s).Spends A fun s' m => Inv s' (n + m) := by
  induction xs generalizing s n with
  | nil => exact spends_pure start
  | cons x rest ih =>
    refine Spends.bind (h s n start x (List.mem_cons_self ..)) fun s' m holds => ?_
    refine (ih (fun s n inv y hy => h s n inv y (List.mem_cons_of_mem _ hy)) holds).mono ?_
    intro s'' k holds'
    rwa [← Nat.add_assoc]

theorem takes_forEach {step : σ → α → Program σ} (h : ∀ s x, (step s x).Takes A n) (xs : List α)
    (s : σ) : (forEach step xs s).Takes A (xs.length * n) := by
  induction xs generalizing s with
  | nil => exact takes_pure s _
  | cons x rest ih =>
    refine ((h s x).bind fun s' => ih s').le ?_
    rw [List.length_cons, Nat.succ_mul, Nat.add_comm]

end Program

namespace Mesh

theorem length_points (m : Mesh) : m.points.length = m.vertexCount := by
  rw [points, List.length_map, length_triples, vertexCount]

theorem length_triangles_le (m : Mesh) : m.triangles.length ≤ m.faceCount := by
  rw [triangles, faceCount, ← length_triples, ← faces]
  exact (List.length_filterMap_le ..).trans List.length_zipIdx.le

end Mesh

theorem Value.length_components_le {v : Value} {xs : List Float32} (h : v.components? = some xs) :
    xs.length ≤ 4 := by
  cases v <;> cases h <;> exact Nat.le_of_ble_eq_true rfl

namespace Block
open Program
variable {A : Answers} (id : BlockId)

theorem takes_box : (boxProgram id).Takes A 4 :=
  (takes_float 0 1).bind fun _ => (takes_float 1 0).bind fun _ => (takes_float 2 0).bind fun _ =>
    (takes_float 3 0).bind fun _ => takes_pure _ 0

theorem takes_sphere : (sphereProgram id).Takes A 3 :=
  (takes_int 0 32).bind fun _ => (takes_float 1 1).bind fun _ => takes_handOn _ _ _

theorem takes_plane : (planeProgram id).Takes A 5 :=
  (takes_float 0 1).bind fun _ => (takes_int 3 1).bind fun _ => (takes_float 1 0).bind fun _ =>
    (takes_float 2 0).bind fun _ => takes_handOn _ _ _

theorem takes_cylinder : (cylinderProgram id).Takes A 4 :=
  (takes_float 0 2).bind fun _ => (takes_float 1 1).bind fun _ => (takes_int 2 24).bind fun _ =>
    takes_handOn _ _ _

theorem takes_math (operation : Operation) : (mathProgram operation).Takes A 2 := by
  refine Takes.bind (m := 1) (takes_value 0) fun left => ?_
  cases left.kind? with
  | none => exact takes_pure _ 1
  | some kind =>
    refine Takes.bind (m := 0) (takes_adapted 1 kind) fun right => ?_
    cases left.components? <;> cases right.bind Value.components? <;> exact takes_pure _ 0

theorem takes_drawComponents (kind : Kind) (ranges : List (Float32 × Float32)) :
    (drawComponents kind ranges).Takes A ranges.length := by
  induction ranges with
  | nil => exact takes_pure _ 0
  | cons range rest ih =>
    have drawn : (drawComponents kind (range :: rest)).Takes A (1 + (rest.length + 0)) :=
      takes_uniform.bind fun _ => ih.bind fun _ => takes_pure _ 0
    exact drawn.le (by rw [List.length_cons, Nat.add_zero, Nat.add_comm])

theorem takes_freshRandom : freshRandom.Takes A 6 := by
  refine Takes.bind (m := 5) (takes_value 0) fun low => ?_
  cases kind? : low.kind? with
  | none => exact takes_pure _ 5
  | some kind =>
    dsimp only
    refine (takes_pure _ 5).ite ?_ _
    refine Takes.bind (m := 4) (takes_adapted 1 kind) fun high => ?_
    cases given : low.components? with
    | none => exact takes_pure _ 4
    | some a =>
      cases high.bind Value.components? with
      | none => exact takes_pure _ 4
      | some b =>
        have few : (a.zip b).length ≤ 4 := by
          rw [List.length_zip]
          exact (Nat.min_le_left ..).trans (Value.length_components_le given)
        exact ((takes_drawComponents kind (a.zip b)).bind fun _ => takes_pure _ 0).le few

theorem takes_keptRandom (anything : ∀ key v, A.kept key v) (key : Int) :
    (keptRandom key).Takes A 8 := by
  have anew : Takes A 7 (do
      let v ← freshRandom
      Program.keep key v (.done v)) :=
    takes_freshRandom.bind fun v => takes_keep (anything key v)
  intro c k
  refine ⟨(anew c (k + 1)).mono ?_, fun v _ => ⟨1, rfl, Nat.le_of_ble_eq_true rfl⟩⟩
  rintro r - ⟨n, count, few⟩
  exact ⟨1 + n, by omega, by omega⟩

theorem takes_random (anything : ∀ key v, A.kept key v) (lock : Lock) :
    (randomProgram lock).Takes A 10 := by
  have keptFor : ∀ number, (randomProgram.keptFor number).Takes A 8 := by
    intro number
    cases number with
    | int i => exact takes_keptRandom anything _
    | _ => exact takes_freshRandom.le (by decide)
  cases lock with
  | none => exact takes_freshRandom.le (by decide)
  | once => exact (takes_keptRandom anything 0).le (by decide)
  | loopId | instanceId => exact (takes_contextual _).bind keptFor

theorem takes_shift : shiftProgram.Takes A 1 := (takes_vec3 0 _).bind fun _ => takes_pure _ 0

theorem takes_scaling : scalingProgram.Takes A 1 := (takes_vec3 0 _).bind fun _ => takes_pure _ 0

theorem takes_rotation (axis : Axis) : (rotationProgram axis).Takes A 1 :=
  (takes_float 0 0).bind fun _ => takes_pure _ 0

theorem takes_compose : composeProgram.Takes A 2 := by
  refine (takes_matrix? 0).bind fun first => Takes.bind (m := 0) (takes_matrix? 1) fun second => ?_
  cases first <;> cases second <;> exact takes_pure _ 0

theorem takes_vectorInput4 (i : Nat) (kind : Kind) : (vectorInput4 i kind).Takes A 1 :=
  (takes_adapted i kind).bind fun _ => takes_pure _ 0

theorem takes_componentInput (i : Nat) (base : Float32) : (componentInput i base).Takes A 2 :=
  (takes_connected i).bind fun _ => (takes_float i base).ite (takes_pure base 1) _

theorem takes_combinedVector : combinedVector.Takes A 12 := by
  have rest : ∀ base : Space.Vec4, Takes A 8 (do
      let x ← componentInput 3 base.x
      let y ← componentInput 4 base.y
      let z ← componentInput 5 base.z
      let w ← componentInput 6 base.w
      return (⟨x, y, z, w⟩ : Space.Vec4)) := fun base =>
    (takes_componentInput 3 _).bind fun _ => (takes_componentInput 4 _).bind fun _ =>
      (takes_componentInput 5 _).bind fun _ => (takes_componentInput 6 _).bind fun _ =>
        takes_pure _ 0
  refine (takes_connected 0).bind fun a => (takes_connected 1).bind fun b =>
    Takes.bind (m := 9) (takes_connected 2) fun c => ?_
  refine Takes.ite ((takes_vectorInput4 0 .vector4).bind rest) ?_ _
  refine Takes.ite ((takes_vectorInput4 1 .vector3).bind rest) ?_ _
  exact Takes.ite ((takes_vectorInput4 2 .vector2).bind rest) ((rest .zero).le (by decide)) _

theorem takes_computeNormals : computeNormalsProgram.Takes A 1 :=
  (takes_mesh? 0).bind fun _ => takes_pure _ 0

theorem takes_transformMatrix : transformMatrix.Takes A 5 := by
  refine Takes.bind (m := 4) (takes_connected 1) fun _ => Takes.ite ?_ ?_ _
  · exact ((takes_matrix? 1).bind fun _ => takes_pure _ 0).le (by decide)
  · exact (takes_vec3 2 _).bind fun _ => (takes_vec3 3 _).bind fun _ =>
      (takes_vec3 4 _).bind fun _ => (takes_vec3 5 _).bind fun _ => takes_pure _ 0

theorem takes_transform : transformProgram.Takes A 6 := by
  refine Takes.bind (m := 5) (takes_mesh? 0) fun m => ?_
  cases m with
  | none => exact takes_pure _ 5
  | some m => exact takes_transformMatrix.bind fun _ => takes_pure _ 0

theorem takes_gatherMeshes (inputs : List Nat) : (gatherMeshes inputs).Takes A inputs.length := by
  induction inputs with
  | nil => exact takes_pure _ 0
  | cons i rest ih =>
    have gathered : (gatherMeshes (i :: rest)).Takes A (1 + (rest.length + 0)) :=
      (takes_mesh? i).bind fun _ => ih.bind fun _ => takes_pure _ 0
    exact gathered.le (by rw [List.length_cons, Nat.add_zero, Nat.add_comm])

theorem takes_joined (parts : List Mesh) : (joined parts).Takes A 1 := takes_handOn _ _ _

theorem takes_merge : mergeProgram.Takes A 6 :=
  (takes_gatherMeshes (List.range 5)).bind takes_joined

theorem takes_infoProgram (number : Mesh → Nat) : (infoProgram number).Takes A 1 :=
  (takes_mesh? 0).bind fun _ => takes_pure _ 0

theorem takes_placementMatrix (inputs : PlacementInputs) (point : Option Space.Vec3) :
    (placementMatrix inputs point).Takes A 4 := by
  refine Takes.bind (m := 3) (takes_connected _) fun _ => Takes.ite ?_ ?_ _
  · exact ((takes_matrix? _).bind fun _ => takes_pure _ 0).le (by decide)
  · exact (takes_vec3 _ _).bind fun _ => (takes_vec3 _ _).bind fun _ =>
      (takes_vec3 _ _).bind fun _ => takes_pure _ 0

theorem takes_place (inputs : PlacementInputs) (point : Option Space.Vec3) (copies : List Mesh) :
    (place inputs point copies).Takes A 5 := by
  refine Takes.bind (m := 4) (takes_mesh? _) fun m => ?_
  cases m with
  | none => exact takes_pure _ 4
  | some m =>
    exact (takes_pure _ 4).ite ((takes_placementMatrix _ _).bind fun _ => takes_pure _ 0) _

theorem takes_placeAt (inputs : PlacementInputs) (outer : Contexts) (step : Execution)
    (point : Option Space.Vec3) (copies : List Mesh) :
    (placeAt inputs outer step point copies).Takes A 6 :=
  (takes_setContexts _).bind fun _ => takes_place inputs point copies

theorem takes_neverPlaces (input : Nat) : (neverPlaces input).Takes A 2 := by
  refine Takes.bind (m := 1) (takes_varying input) fun _ => (takes_pure _ 1).ite ?_ _
  exact (takes_mesh? input).bind fun _ => takes_pure _ 0

/-- The input asks for no more than that many instances. -/
def AsksFor (A : Answers) (input : Nat) (usual : Int32) (most : Nat) : Prop :=
  ∀ c v, A.input input c v →
    (((v.coerce? .int).bind Value.int?).getD usual).toInt.toNat ≤ most

theorem spends_countInput {input most : Nat} {usual : Int32} (asks : AsksFor A input usual most) :
    (countInput input usual).Spends A fun count n => n ≤ 1 ∧ count ≤ most :=
  fun c _ v known => ⟨1, rfl, le_rfl, asks c v known⟩

/-- A geometry that the first input yields has no more than that many faces and vertices. -/
def GoesOver (A : Answers) (faces vertices : Nat) : Prop :=
  ∀ c v, A.input 0 c v →
    v.Holds fun m => m.faceCount ≤ faces ∧ m.vertexCount ≤ vertices

theorem spends_mesh? {i : Nat} {P : Mesh → Prop} (h : ∀ c v, A.input i c v → v.Holds P) :
    (mesh? i).Spends A fun m? n => n ≤ 1 ∧ ∀ m, m? = some m → P m :=
  fun c _ v known => ⟨1, rfl, le_rfl, fun m found => h c v known m (Value.mesh?_coerce? found)⟩

theorem spends_baseMesh? {P : Mesh → Prop} (h : ∀ c v, A.input 0 c v → v.Holds P)
    (needsFaces : Bool) :
    (baseMesh? id needsFaces).Spends A fun m? n => n ≤ 2 ∧ ∀ m, m? = some m → P m := by
  have refused : ∀ n ≤ 1, ∀ d, Spends A
      (fun (m? : Option Mesh) m => n + m ≤ 2 ∧ ∀ base, m? = some base → P base) (do
        report d
        return none) := fun n few d =>
    Spends.bind (takes_report d) fun _ m few' => spends_pure ⟨by omega, nofun⟩
  refine (spends_mesh? h).bind fun m? n ⟨few, holds⟩ => ?_
  cases m? with
  | none => exact spends_pure ⟨by omega, nofun⟩
  | some base =>
    refine (refused n few _).ite ((refused n few _).ite (spends_pure ⟨by omega, ?_⟩) _) _
    rintro _ ⟨⟩
    exact holds base rfl

theorem takes_baseMesh? (needsFaces : Bool) : (baseMesh? id needsFaces).Takes A 2 :=
  (spends_baseMesh? (P := fun _ => True) id (fun _ _ _ _ _ => True.intro) needsFaces).mono
    fun _ _ ⟨few, _⟩ => few

variable {faces vertices most : Nat}

theorem takes_unlessEmpty {n : Nat} (input : Nat) {p : Program Value} (h : p.Takes A n) :
    Takes A (2 + n) (do if ← neverPlaces input then return .null else p) :=
  (takes_neverPlaces input).bind fun _ => (takes_pure _ n).ite h _

theorem takes_instantiate (asks : AsksFor A 1 1 most) :
    (instantiateProgram id).Takes A (7 + 6 * most) := by
  have loop : ∀ outer, ∀ count ≤ most, Takes A (6 * most) (forEach
      (fun copies i => placeAt loopInputs outer (Execution.atStep id i) none copies)
      (List.range count) []) := by
    intro outer count le
    refine (takes_forEach (fun copies i => takes_placeAt loopInputs outer _ none copies) _ []).le ?_
    rw [List.length_range, Nat.mul_comm]
    exact Nat.mul_le_mul_left 6 le
  refine (takes_inScope (takes_bind (m := 4 + 6 * most) (spends_countInput asks)
    fun count le => ?_)).le (by omega)
  refine (takes_pure _ _).ite ((takes_unlessEmpty (n := 1 + (6 * most + 1)) _ ?_).le (by omega)) _
  exact takes_currentContexts.bind fun outer => (loop outer count le).bind fun _ => takes_joined _

theorem takes_placeOnFace (outer : Contexts) (face : Nat) (t : Space.Triangle) (copies : List Mesh)
    (number : Nat) : (placeOnFace id outer face t copies number).Takes A 8 :=
  takes_uniform.bind fun _ => takes_uniform.bind fun _ => takes_placeAt _ _ _ _ _

/-- What has been spent on faces goes with how many instances have been placed on them. -/
theorem spends_placeFaceShare (outer : Contexts) (count : Nat) (share : Float32) (last : Nat)
    {progress : FaceProgress} {n : Nat} (few : n ≤ 8 * progress.placed)
    (within : progress.placed ≤ count) (entry : (Nat × Space.Triangle) × Nat) :
    (placeFaceShare id outer count share last progress entry).Spends A fun progress' m =>
      n + m ≤ 8 * progress'.placed ∧ progress'.placed ≤ count := by
  rw [placeFaceShare]
  split
  · exact spends_pure ⟨few, within⟩
  · dsimp only
    generalize ht : (if entry.2 = last then count
      else min (Number.toCount (Number.floor (progress.accumulated + share))) count) = target
    have le : target ≤ count := by
      rw [← ht]
      split
      · exact le_rfl
      · exact Nat.min_le_right ..
    have loop := takes_forEach (A := A) (takes_placeOnFace id outer entry.1.1 entry.1.2)
      (List.range' progress.placed (target - progress.placed)) progress.copies
    rw [List.length_range'] at loop
    refine Spends.bind loop fun copies m placed => spends_pure ⟨?_, ?_⟩
    · dsimp only
      omega
    · exact Nat.max_le.2 ⟨within, le⟩

theorem takes_instantiateOnFaces (asks : AsksFor A 2 256 most) :
    (instantiateOnFacesProgram id).Takes A (10 + 8 * most) := by
  have loop : ∀ outer, ∀ count ≤ most, ∀ (share : Float32) (last : Nat) entries, Takes A (8 * most)
      (forEach (placeFaceShare id outer count share last) entries {}) := by
    intro outer count le share last entries
    have all : (forEach (placeFaceShare id outer count share last) entries {}).Spends A
        fun progress n => 0 + n ≤ 8 * progress.placed ∧ progress.placed ≤ count :=
      spends_forEach (fun (progress : FaceProgress) n =>
          n ≤ 8 * progress.placed ∧ progress.placed ≤ count)
        (fun progress n ⟨few, within⟩ entry _ =>
          spends_placeFaceShare id outer count share last few within entry)
        ⟨Nat.zero_le _, Nat.zero_le _⟩
    refine all.mono fun progress m ⟨few, within⟩ => ?_
    omega
  refine (takes_inScope (Takes.bind (m := 6 + 8 * most) (takes_baseMesh? id true)
    fun base? => ?_)).le (by omega)
  cases base? with
  | none => exact takes_pure _ _
  | some base =>
    refine (takes_bind (m := 5 + 8 * most) (spends_countInput asks) fun count le => ?_).le
      (by omega)
    refine (takes_pure _ _).ite ((takes_unlessEmpty (n := 3 + 8 * most) _ ?_).le (by omega)) _
    refine Takes.ite
      ((Takes.bind (m := 1 + (8 * most + 1)) (takes_report _) fun _ => ?_).le (by omega))
      (Takes.le (n := 1 + (8 * most + 1)) ?_ (by omega)) _
    all_goals
      refine (takes_pure _ _).ite (takes_currentContexts.bind fun outer => ?_) _
      exact (loop _ count le _ _ _).bind fun _ => takes_joined _

theorem takes_isPassedOver (density : Float32) : (isPassedOver density).Takes A 1 :=
  (takes_uniform.bind fun _ => takes_pure _ 0).ite (takes_pure _ 1) _

theorem takes_placeOnVertex (removeDuplicates : Bool) (outer : Contexts) (base : IndexedMesh)
    (density : Float32) (progress : VertexProgress) (entry : Space.Vec3 × Nat) :
    (placeOnVertex id removeDuplicates outer base density progress entry).Takes A 7 := by
  obtain ⟨point, vertex⟩ := entry
  refine (takes_pure _ 7).ite ?_ _
  refine Takes.bind (m := 6) (takes_isPassedOver density) fun _ => (takes_pure _ 6).ite ?_ _
  exact (takes_placeAt _ _ _ _ _).bind fun _ => takes_pure _ 0

theorem takes_instantiateOnVertices (sized : GoesOver A faces vertices) (removeDuplicates : Bool) :
    (instantiateOnVerticesProgram id removeDuplicates).Takes A (7 + 7 * vertices) := by
  refine (takes_inScope (takes_bind (m := 3 + 7 * vertices) (spends_baseMesh? id sized false)
    fun base? holds => ?_)).le (by omega)
  cases base? with
  | none => exact takes_pure _ _
  | some base =>
    have le : base.points.zipIdx.length ≤ vertices := by
      rw [List.length_zipIdx, Mesh.length_points]
      exact (holds base rfl).2
    refine (Takes.bind (m := 1 + (7 * vertices + 1)) (takes_float 2 1) fun density => ?_).le (by omega)
    refine takes_currentContexts.bind fun outer => ?_
    have loop := takes_forEach (A := A)
      (takes_placeOnVertex id removeDuplicates { outer with geometry := some (IndexedMesh.of base) }
        (IndexedMesh.of base) density) base.points.zipIdx {}
    refine (loop.le ?_).bind fun _ => takes_joined _
    rw [Nat.mul_comm]
    exact Nat.mul_le_mul_left 7 le

theorem spends_findInside (surface : List Space.Triangle) (low high : Space.Vec3) (attempts : Nat) :
    (findInside surface low high attempts).Spends A fun point? n =>
      n ≤ 3 * attempts ∧ (point?.isSome → 0 < attempts) := by
  induction attempts with
  | zero => exact spends_pure ⟨le_rfl, nofun⟩
  | succ attempts ih =>
    refine Spends.bind takes_uniform fun x i one => Spends.bind takes_uniform fun y j one' =>
      Spends.bind takes_uniform fun z k one'' => ?_
    refine Spends.ite (spends_pure ⟨by omega, fun _ => Nat.succ_pos _⟩) (ih.mono ?_) _
    exact fun point? n ⟨few, _⟩ => ⟨by omega, fun _ => Nat.succ_pos _⟩

theorem takes_placeInside (outer : Contexts) {search : Program (Option Space.Vec3)} {attempts : Nat}
    (h : search.Spends A fun point? n => n ≤ 3 * attempts ∧ (point?.isSome → 0 < attempts))
    (remaining number : Nat) (copies : List Mesh) :
    (placeInside id outer search remaining number copies).Takes A (remaining * (9 * attempts)) := by
  induction remaining generalizing number copies with
  | zero => exact takes_pure _ _
  | succ remaining ih =>
    rw [Nat.succ_mul]
    refine Spends.bind h fun point? n ⟨few, found⟩ => ?_
    cases point? with
    | none => exact spends_pure (by omega)
    | some point =>
      have some_ := found rfl
      refine Spends.bind (takes_placeAt _ _ _ _ _) fun copies m placed => ?_
      exact (ih (number + 1) copies).mono fun _ k rest => by omega

theorem takes_instantiateOnVolume (asks : AsksFor A 2 256 most) (maxAttempts : UInt32) :
    (instantiateOnVolumeProgram id maxAttempts).Takes A (9 + most * (9 * maxAttempts.toNat)) := by
  refine (takes_inScope (Takes.bind (m := 5 + most * (9 * maxAttempts.toNat))
    (takes_baseMesh? id true) fun base? => ?_)).le (by omega)
  cases base? with
  | none => exact takes_pure _ _
  | some base =>
    dsimp only
    cases base.bounds? with
    | none => exact takes_pure _ _
    | some bounds =>
      obtain ⟨low, high⟩ := bounds
      refine (takes_bind (m := 4 + most * (9 * maxAttempts.toNat)) (spends_countInput asks)
        fun count le => ?_).le (by omega)
      refine (takes_pure _ _).ite ((takes_unlessEmpty
        (n := 1 + (most * (9 * maxAttempts.toNat) + 1)) _ ?_).le (by omega)) _
      refine takes_currentContexts.bind fun outer => ?_
      have loop := takes_placeInside (A := A) id { outer with geometry := some (.of base) }
        (spends_findInside base.surface low high maxAttempts.toNat) count 0 []
      exact (loop.le (Nat.mul_le_mul_right _ le)).bind fun _ => takes_joined _

theorem takes_vertexEntry (target : Attribute) (outer : Contexts)
    (entries : List (Option (List Float32))) (vertex : Nat) :
    (vertexEntry id target outer entries vertex).Takes A 3 := by
  refine (takes_setContexts _).bind fun _ => Takes.bind (m := 1) (takes_value 1) fun v => ?_
  cases target.components? v with
  | some xs => exact takes_pure _ 1
  | none => exact ((takes_report _).bind fun _ => takes_pure _ 0).ite (takes_pure _ 1) _

theorem takes_setAttribute (sized : GoesOver A faces vertices) (target : Attribute) :
    (setAttributeProgram id target).Takes A (5 + 3 * vertices) := by
  refine (takes_inScope (takes_bind (m := 2 + 3 * vertices) (spends_mesh? sized)
    fun m? holds => ?_)).le (by omega)
  cases m? with
  | none => exact takes_pure _ _
  | some incoming =>
    refine (takes_pure _ _).ite ?_ _
    refine (Takes.bind (m := 1 + 3 * vertices) (takes_connected 1) fun _ => ?_).le (by omega)
    refine (takes_pure _ _).ite (takes_currentContexts.bind fun outer => ?_) _
    have loop := takes_forEach (A := A)
      (takes_vertexEntry id target { outer with geometry := some (.of incoming) })
      (List.range incoming.vertexCount) []
    refine (loop.le ?_).bind fun _ => takes_pure _ 0
    rw [List.length_range, Nat.mul_comm]
    exact Nat.mul_le_mul_left 3 (holds incoming rfl).2

end Block

def Supply.Takes (A : Answers) (n : Nat) : Supply → Prop
  | .value _ => True
  | .onRead program => program.Takes A n

/-- Whatever is run to read an output makes no more than that many requests. -/
def Plan.Takes (A : Answers) (n : Nat) (plan : Plan) : Prop :=
  ∀ entry ∈ plan.outputs, entry.2.Takes A n

/-- So many requests to build a block, and so many again for every read of an output. -/
def Program.Plans (A : Answers) (n : Nat) (p : Program Plan) : Prop :=
  p.Spends A fun plan k => k ≤ n ∧ plan.Takes A n

section
open Program
variable {A : Answers} {n : Nat}

theorem Program.Takes.single {p : Program Value} (h : p.Takes A n) (everyRead : Bool) :
    (single everyRead p).Plans A n := by
  have one : ∀ supply : Supply, supply.Takes A n → Plan.Takes A n ⟨[(0, supply)], none⟩ := by
    intro supply takes entry mem
    rw [List.mem_singleton.1 mem]
    exact takes
  have supplied : (supply everyRead p).Spends A fun supply k => k ≤ n ∧ supply.Takes A n := by
    cases everyRead with
    | true => exact spends_pure ⟨Nat.zero_le n, h⟩
    | false => exact Spends.bind h fun _ _ few => spends_pure ⟨few, True.intro⟩
  exact supplied.bind fun supply k ⟨few, takes⟩ => spends_pure ⟨few, one supply takes⟩

theorem Program.Plans.le {p : Program Plan} (h : p.Plans A n) {m : Nat} (le : n ≤ m) :
    p.Plans A m := by
  refine Spends.mono h fun plan k ⟨few, takes⟩ => ⟨few.trans le, fun entry mem => ?_⟩
  have entryTakes := takes entry mem
  revert entryTakes
  cases entry.2 with
  | value v => exact id
  | onRead program => exact fun few => Takes.le few le

theorem plans_onRead {ι : Type} (index : ι → Nat) (program : ι → Program Value) (entries : List ι)
    (h : ∀ e ∈ entries, (program e).Takes A n) (result : Option Value) :
    Program.Plans A n
      (pure ⟨entries.map fun e => (index e, .onRead (program e)), result⟩) := by
  refine spends_pure ⟨Nat.zero_le n, fun entry mem => ?_⟩
  obtain ⟨e, he, rfl⟩ := List.mem_map.1 mem
  exact h e he

theorem plans_fixed (v : Value) : (Block.fixed v).Plans A n := by
  refine spends_pure ⟨Nat.zero_le n, fun entry mem => ?_⟩
  rw [List.mem_singleton.1 mem]
  trivial

theorem plans_info : Program.Plans A 1 (pure Block.infoPlan) := by
  refine spends_pure ⟨Nat.zero_le _, fun entry mem => ?_⟩
  simp only [Block.infoPlan, List.mem_cons, List.not_mem_nil, or_false] at mem
  rcases mem with rfl | rfl | rfl | rfl
  · exact (takes_mesh? 0).bind fun _ => takes_pure _ 0
  all_goals exact Block.takes_infoProgram _

end

namespace Block
open Program

/-- Where a block reads how many instances it is to place, and how many it places usually. -/
def asksAt? : Block → Option (Nat × Int32)
  | instantiate _ => some (1, 1)
  | instantiateOnFaces _ | instantiateOnVolume .. => some (2, 256)
  | _ => none

/-- The block goes over the geometry of its first input. -/
def GoesOverFirst : Block → Prop
  | setAttribute .. | instantiateOnFaces _ | instantiateOnVertices .. | instantiateOnVolume .. =>
    True
  | _ => False

/-- How many steps the loops of a block take, where a geometry has so many faces and vertices and so
many instances are asked for. -/
def steps (faces vertices count : Nat) : Block → Nat
  | setAttribute .. | instantiateOnVertices .. => vertices
  | instantiate _ => count
  | instantiateOnFaces _ => faces + count
  | instantiateOnVolume _ maxAttempts => count * maxAttempts.toNat
  | _ => 0

/-- What the loops of a block go by is bounded; of what it has kept nothing need be known. -/
structure Sized (b : Block) (A : Answers) (faces vertices count : Nat) : Prop where
  kept : ∀ key v, A.kept key v
  first : b.GoesOverFirst → GoesOver A faces vertices
  asks : ∀ input usual, b.asksAt? = some (input, usual) → AsksFor A input usual count

/-- The loops of a block take a number of steps that is fixed when they start, and a step makes a
bounded number of requests. -/
theorem IsStandard.plans {b : Block} (h : b.IsStandard) {A : Answers} {faces vertices count : Nat}
    (sized : b.Sized A faces vertices count) (id : BlockId) (name : String) :
    (b.plan id name).Plans A (12 + 9 * b.steps faces vertices count) := by
  have single : ∀ {n : Nat} {p : Program Value}, p.Takes A n → ∀ everyRead : Bool, n ≤ 12 →
      (Program.single everyRead p).Plans A 12 := fun takes everyRead le =>
    (takes.le le).single everyRead
  cases b with
  | custom block => exact h.elim
  | box e => exact single (takes_box id) e (by decide)
  | sphere e => exact single (takes_sphere id) e (by decide)
  | plane e => exact single (takes_plane id) e (by decide)
  | cylinder e => exact single (takes_cylinder id) e (by decide)
  | pointList points => exact plans_fixed _
  | mesh data reverseWinding => exact plans_fixed _
  | input settings =>
    cases found : settings.source with
    | none =>
      rw [Block.plan, found]
      exact plans_fixed _
    | some source =>
      rw [Block.plan, found]
      exact single (takes_contextual source) true (by decide)
  | output =>
    have plans : Program.Plans A 1 (do return { result := some (← value 0) }) :=
      Spends.bind (takes_value 0) fun v k one =>
        spends_pure ⟨one, fun entry mem => (List.not_mem_nil mem).elim⟩
    exact plans.le (Nat.le_add_right_of_le (by decide))
  | math operation => exact single (takes_math operation) true (by decide)
  | random lock => exact single (takes_random sized.kept lock) true (by decide)
  | vectorConverter =>
    exact plans_onRead Prod.snd
      (fun entry : (Space.Vec4 → Value) × Nat => do return entry.1 (← combinedVector)) _
      (fun _ _ => takes_combinedVector.bind fun _ => takes_pure _ 0) none
  | shift => exact single takes_shift true (by decide)
  | scaling => exact single takes_scaling true (by decide)
  | rotation axis => exact single (takes_rotation axis) true (by decide)
  | matrixCompose => exact single takes_compose true (by decide)
  | computeNormals e => exact single takes_computeNormals e (by decide)
  | transform e => exact single takes_transform e (by decide)
  | merge e => exact single takes_merge e (by decide)
  | info => exact plans_info.le (Nat.le_add_right_of_le (by decide))
  | setAttribute target e =>
    exact (((takes_setAttribute id (sized.first trivial) target).single e).le (by
      rw [steps]
      omega))
  | instantiate e =>
    exact ((takes_instantiate id (sized.asks 1 1 rfl)).single e).le (by
      rw [steps]
      omega)
  | instantiateOnFaces e =>
    exact ((takes_instantiateOnFaces id (sized.asks 2 256 rfl)).single e).le (by
      rw [steps]
      omega)
  | instantiateOnVertices e removeDuplicates =>
    exact ((takes_instantiateOnVertices id (sized.first trivial) removeDuplicates).single e).le (by
      rw [steps]
      omega)
  | instantiateOnVolume e maxAttempts =>
    refine ((takes_instantiateOnVolume id (sized.asks 2 256 rfl) maxAttempts).single e).le ?_
    rw [steps, Nat.mul_left_comm]
    omega

end Block
end MeshFlow
