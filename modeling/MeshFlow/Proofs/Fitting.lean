import MeshFlow.Proofs.Settings
import MeshFlow.Proofs.Underway

set_option autoImplicit false

/-!
# What blocks yield

What a block yields fits what it declares: it is null, or of the declared kind, and a mesh in it is
of any sort that is closed under what blocks do to meshes, if the meshes that come in are. Blocks
that derive their kind take it from the value read at their first input. This is shown program by
program, for all contexts and whatever the other inputs yield.
-/
namespace MeshFlow

namespace Value

/-- If the value is a mesh, then one of a sort. -/
def Holds (P : Mesh → Prop) (v : Value) : Prop := ∀ m, v = .geometry m → P m

/-- Null, or of a kind, with a mesh of a sort if it is one. -/
def Conforms (P : Mesh → Prop) (kind : Kind) (v : Value) : Prop :=
  v = .null ∨ v.kind? = some kind ∧ v.Holds P

variable {P : Mesh → Prop}

theorem holds_null : null.Holds P := by
  rintro m ⟨⟩

theorem holds_of_kind {v : Value} {kind : Kind} (h : v.kind? = some kind)
    (other : kind ≠ .geometry) : v.Holds P := by
  rintro m rfl
  cases h
  exact absurd rfl other

theorem Conforms.holds {kind : Kind} {v : Value} (h : v.Conforms P kind) : v.Holds P := by
  rcases h with rfl | ⟨-, holds⟩
  · exact holds_null
  · exact holds

theorem conforms_of_kind {v : Value} {kind : Kind} (h : v.kind? = some kind)
    (other : kind ≠ .geometry) : v.Conforms P kind :=
  .inr ⟨h, holds_of_kind h other⟩

theorem conforms_geometry {m : Mesh} (h : P m) : (geometry m).Conforms P .geometry := by
  refine .inr ⟨rfl, ?_⟩
  rintro _ ⟨⟩
  exact h

theorem conforms_ofMesh? {m? : Option Mesh} (h : ∀ m, m? = some m → P m) :
    (ofMesh? m?).Conforms P .geometry := by
  cases m? with
  | none => exact .inl rfl
  | some m => exact conforms_geometry (h m rfl)

theorem mesh?_coerce? {v : Value} {m : Mesh} (h : (v.coerce? .geometry).bind mesh? = some m) :
    v = .geometry m := by
  cases v with
  | geometry _ => cases h; rfl
  | _ => cases h

theorem length_components {v : Value} {xs : List Float32} (h : v.components? = some xs) :
    v.kind?.bind Kind.components? = some xs.length := by
  cases v <;> cases h <;> rfl

end Value

theorem Contexts.conforms_lookup {P : Mesh → Prop} (c : Contexts) (source : ContextualSource) :
    (c.lookup source).Conforms P source.kind := by
  have atVertex : ∀ {α : Type} (view : IndexedMesh → Nat → Option α) (make : α → Value)
      (kind : Kind), (∀ a, (make a).kind? = some kind) → kind ≠ .geometry →
      (c.atVertex view make).Conforms P kind := by
    intro α view make kind made other
    rw [Contexts.atVertex]
    split
    · rename_i mesh step _ _
      cases view mesh step.index with
      | none => exact .inl rfl
      | some a => exact Value.conforms_of_kind (made a) other
    · exact .inl rfl
  have number : ∀ {α : Type} (a? : Option α) (number : α → Nat),
      ((a?.map fun a => Value.ofNat (number a)).getD .null).Conforms P .int := by
    intro α a? number
    cases a? with
    | none => exact .inl rfl
    | some a => exact Value.conforms_of_kind rfl (by decide)
  cases source with
  | positions | normals =>
    rw [Contexts.lookup]
    split
    · exact Value.conforms_of_kind rfl (by decide)
    · exact atVertex _ _ _ (fun _ => rfl) (by decide)
  | colors | tangents | uv => exact atVertex _ _ _ (fun _ => rfl) (by decide)
  | _ => exact number _ _

theorem Attribute.length_components {target : Attribute} {v : Value} {xs : List Float32}
    (h : target.components? v = some xs) : xs.length = target.stride := by
  have adapted : ((v.coerce? target.kind).bind Value.components?) = some xs →
      xs.length = target.stride := by
    intro h
    obtain ⟨w, coerced, components⟩ := Option.bind_eq_some_iff.1 h
    have length := Value.length_components components
    have kind : w.kind? = some target.kind := by
      rcases Value.kind?_of_coerce? coerced with unknown | kind
      · cases target <;> cases unknown
      · exact kind
    rw [kind] at length
    cases target <;> exact (Option.some.inj length).symm
  unfold Attribute.components? at h
  split at h
  · cases h
    rfl
  · exact adapted h

/-- A sort of meshes that what blocks do to meshes does not lead out of. Among such meshes an index
does not fit only where there are numbers of vertices of a sort. -/
structure Mesh.Closed (P : Mesh → Prop) (N : Nat → Prop) : Prop where
  stamped : ∀ m id, P m → P { m with id }
  points : ∀ points, P (.ofPoints points)
  cuboid : ∀ box : Cuboid, P box.toMesh
  sphere : ∀ ball : Sphere, P ball.toMesh
  plane : ∀ sheet : Plane, P sheet.toMesh
  cylinder : ∀ tube : Cylinder, P tube.toMesh
  reversed : ∀ m, P m → P { m with indices := m.indices.map Block.reverseTriangles }
  computeNormals : ∀ m, P m → P m.computeNormals
  transform : ∀ m t, P m → P (m.transform t)
  mergeAll : ∀ ms m, (∀ part ∈ ms, P part) → Mesh.mergeAll? ms = some m → P m
  overwrite : ∀ m k entries, P m → entries.length = m.vertexCount →
    (∀ e ∈ entries, ∀ xs, e = some xs → xs.length = k.stride) → P (m.overwrite k entries)
  shaped : ∀ vertices, 2 ^ 32 < vertices → N vertices
  merged : ∀ ms, (∀ part ∈ ms, P part) → Mesh.overflows ms → N (Mesh.totalVertices ms)

theorem Mesh.closed_trivial : Mesh.Closed (fun _ => True) fun _ => True := by
  constructor <;> intros <;> trivial

namespace Program

section
variable {α β σ : Type} {A : Answers} {N : Nat → Prop} {Q : α → Prop} {R : β → Prop}

/-- Whatever the contexts, the program comes to a result of a sort, and reports nothing but what is
within `N`. -/
def Ensures (A : Answers) (N : Nat → Prop) (Q : α → Prop) (p : Program α) : Prop :=
  ∀ c, p.Always A (fun a _ => Q a) c ∧ p.Notes A N c

theorem ensures_pure {a : α} (h : Q a) : (pure a : Program α).Ensures A N Q := fun _ =>
  ⟨h, True.intro⟩

theorem Ensures.bind {p : Program α} (h : p.Ensures A N Q) {f : α → Program β}
    (h' : ∀ a, Q a → (f a).Ensures A N R) : (p >>= f).Ensures A N R := fun c =>
  ⟨(always_bind ..).2 ((h c).1.mono fun a c' holds => (h' a holds c').1),
    (h c).2.bind ((h c).1.mono fun a c' holds => (h' a holds c').2)⟩

theorem Ensures.mono {Q' : α → Prop} {p : Program α} (h : p.Ensures A N Q) (le : ∀ a, Q a → Q' a) :
    p.Ensures A N Q' := fun c => ⟨(h c).1.mono fun a _ holds => le a holds, (h c).2⟩

theorem Ensures.ite {p q : Program α} (h : p.Ensures A N Q) (h' : q.Ensures A N Q) (b : Prop)
    [Decidable b] : (if b then p else q).Ensures A N Q := by
  split
  · exact h
  · exact h'

theorem Plain.then {p : Program α} (h : p.Plain N) {f : α → Program β}
    (h' : ∀ a, (f a).Ensures A N R) : (p >>= f).Ensures A N R := by
  have any : p.Ensures A N fun _ => True := by
    intro c
    induction p with
    | done a => exact ⟨trivial, trivial⟩
    | read i k ih | adapt i kind k ih =>
      exact ⟨fun v _ => (ih _ (h _)).1, fun v _ => (ih _ (h _)).2⟩
    | isConnected i k ih => exact ih _ (h _)
    | record d k ih => exact ⟨(ih h.2.2).1, h.2.1, (ih h.2.2).2⟩
    | isVarying | contexts | enter | draw | kept | keep => exact h.elim
  exact any.bind fun a _ => h' a

theorem ensures_inScope {p : Program α} (h : p.Ensures A N Q) : (inScope p).Ensures A N Q :=
  fun c => ⟨(always_inScope ..).2 (h c).1,
    (h c).2.bind ((h c).1.mono fun _ _ _ => True.intro)⟩

theorem ensures_value {i : Nat} {f : Value → Program β}
    (h : ∀ c v, A.input i c v → (f v).Ensures A N R) : (value i >>= f).Ensures A N R := fun c =>
  ⟨fun v known => (h c v known c).1, fun v known => (h c v known c).2⟩

theorem ensures_mesh? {P : Mesh → Prop} {i : Nat} (h : ∀ c v, A.input i c v → v.Holds P) :
    (mesh? i).Ensures A N fun m? => ∀ m, m? = some m → P m := by
  refine fun c => ⟨fun v known m found => ?_, fun _ _ => True.intro⟩
  exact h c v known m (Value.mesh?_coerce? found)

theorem ensures_contextual (source : ContextualSource) :
    (contextual source).Ensures A N fun v => ∃ c : Contexts, v = c.lookup source := by
  have noted : ∀ v : Value, Ensures A N (· = v) (do
      if v.isNull then report (.missingContextualData source)
      return v) := by
    intro v
    refine Ensures.ite ?_ ?_ _
    · exact (plain_report (by trivial) (by trivial)).then fun _ => ensures_pure rfl
    · exact ensures_pure rfl
  intro c
  obtain ⟨comes, notes⟩ := noted (c.lookup source) c
  exact ⟨comes.mono fun v _ same => ⟨c, same⟩, notes⟩

theorem ensures_currentContexts {f : Contexts → Program α} (h : ∀ c, (f c).Ensures A N Q) :
    (currentContexts >>= f).Ensures A N Q := fun c => h c c

theorem ensures_setContexts {f : Unit → Program α} (contexts : Contexts)
    (h : (f ()).Ensures A N Q) : (setContexts contexts >>= f).Ensures A N Q := fun _ => h contexts

theorem ensures_uniform {f : Float32 → Program α} (h : ∀ x, (f x).Ensures A N Q) :
    (uniform >>= f).Ensures A N Q := fun c => ⟨fun x => (h x c).1, fun x => (h x c).2⟩

theorem ensures_varying {i : Nat} {f : Bool → Program α} (h : ∀ b, (f b).Ensures A N Q) :
    (varying i >>= f).Ensures A N Q := fun c => ⟨fun b => (h b c).1, fun b => (h b c).2⟩

theorem ensures_handOn {overflows : Bool} {vertices : Nat} {v : Value} {Q : Value → Prop}
    (within : overflows → N vertices) (holds : Q v) : (handOn overflows vertices v).Ensures A N Q := by
  rw [handOn]
  split
  · rename_i overflows
    have noted : (report (.overflow vertices)).Plain N :=
      plain_report True.intro (within overflows)
    exact noted.then fun _ => ensures_pure holds
  · exact ensures_pure holds

/-- A loop keeps what each of its steps keeps; `Inv` may speak of what is left to do. -/
theorem ensures_forEach (Inv : List α → σ → Prop) {step : σ → α → Program σ}
    (h : ∀ x rest s, Inv (x :: rest) s → (step s x).Ensures A N (Inv rest)) (xs : List α) {s : σ}
    (start : Inv xs s) : (forEach step xs s).Ensures A N (Inv []) := by
  induction xs generalizing s with
  | nil => exact ensures_pure start
  | cons x rest ih => exact (h x rest s start).bind fun s' holds => ih holds

end
end Program

namespace Block
open Program
variable {A : Answers} {N : Nat → Prop} {P : Mesh → Prop} (closed : Mesh.Closed P N) (id : BlockId)

section shapes
include closed

theorem ensures_box : (boxProgram id).Ensures A N (Value.Conforms P .geometry) :=
  (plain_float 0 1).then fun _ => (plain_float 1 0).then fun _ => (plain_float 2 0).then fun _ =>
    (plain_float 3 0).then fun _ =>
      ensures_pure (Value.conforms_geometry (closed.stamped _ _ (closed.cuboid _)))

theorem ensures_shaped {m : Mesh} (holds : P m) (vertices : Nat) :
    (shaped id vertices m).Ensures A N (Value.Conforms P .geometry) :=
  ensures_handOn (fun many => closed.shaped vertices (of_decide_eq_true many))
    (Value.conforms_geometry (closed.stamped _ _ holds))

theorem ensures_sphere : (sphereProgram id).Ensures A N (Value.Conforms P .geometry) :=
  (plain_int 0 32).then fun _ => (plain_float 1 1).then fun _ =>
    ensures_shaped closed id (closed.sphere _) _

theorem ensures_plane : (planeProgram id).Ensures A N (Value.Conforms P .geometry) :=
  (plain_float 0 1).then fun _ => (plain_int 3 1).then fun _ => (plain_float 1 0).then fun _ =>
    (plain_float 2 0).then fun _ =>
      ensures_shaped closed id (closed.plane _) _

theorem ensures_cylinder : (cylinderProgram id).Ensures A N (Value.Conforms P .geometry) :=
  (plain_float 0 2).then fun _ => (plain_float 1 1).then fun _ => (plain_int 2 24).then fun _ =>
    ensures_shaped closed id (closed.cylinder _) _

theorem conforms_pointListValue (points : List Space.Vec3) :
    (pointListValue id points).Conforms P .geometry := by
  rw [pointListValue]
  split
  · exact .inl rfl
  · exact Value.conforms_geometry (closed.stamped _ _ (closed.points _))

theorem conforms_meshValue {data : Option Mesh} (h : ∀ m, data = some m → P m) (reverseWinding : Bool) :
    (meshValue data reverseWinding).Conforms P .geometry := by
  refine Value.conforms_ofMesh? fun m hm => ?_
  obtain ⟨given, rfl, rfl⟩ := Option.map_eq_some_iff.1 hm
  split
  · exact closed.reversed _ (h given rfl)
  · exact h given rfl

end shapes

/-- What derives from a value: null, or a number or vector of its kind. -/
def TakesAfter (A : Answers) (v : Value) : Prop :=
  v = .null ∨ ∃ c left, A.input 0 c left ∧ v.kind? = left.kind? ∧ v.components?.isSome

theorem takesAfter_ofComponents? {c : Contexts} {left : Value} {kind : Kind}
    (known : A.input 0 c left) (hk : left.kind? = some kind) (xs : List Float32) :
    TakesAfter A ((Value.ofComponents? kind xs).getD .null) := by
  cases made : Value.ofComponents? kind xs with
  | none => exact .inl rfl
  | some v =>
    refine .inr ⟨c, left, known, (Value.kind?_of_ofComponents? made).trans hk.symm, ?_⟩
    cases kind <;> cases made <;> rfl

theorem ensures_math (operation : Operation) : (mathProgram operation).Ensures A N (TakesAfter A) := by
  refine ensures_value fun c left known => ?_
  cases hk : left.kind? with
  | none => exact ensures_pure (.inl rfl)
  | some kind =>
    refine (plain_adapted 1 kind).then fun right => ?_
    split
    · exact ensures_pure (takesAfter_ofComponents? known hk _)
    · exact ensures_pure (.inl rfl)

theorem ensures_drawComponents (kind : Kind) (ranges : List (Float32 × Float32)) :
    (drawComponents kind ranges).Ensures A N fun _ => True := by
  induction ranges with
  | nil => exact ensures_pure trivial
  | cons range rest ih =>
    exact ensures_uniform fun x => ih.bind fun _ _ => ensures_pure trivial

theorem ensures_freshRandom : freshRandom.Ensures A N (TakesAfter A) := by
  refine ensures_value fun c low known => ?_
  cases hk : low.kind? with
  | none => exact ensures_pure (.inl rfl)
  | some kind =>
    dsimp only
    split
    · exact ensures_pure (.inl rfl)
    · refine (plain_adapted 1 kind).then fun high => ?_
      split
      · refine (ensures_drawComponents kind _).bind fun xs _ => ?_
        exact ensures_pure (takesAfter_ofComponents? known hk xs)
      · exact ensures_pure (.inl rfl)

theorem ensures_keptRandom {Q : Value → Prop} (fresh : ∀ v, TakesAfter A v → Q v)
    (kept : ∀ key v, A.kept key v ↔ Q v) (key : Int) : (keptRandom key).Ensures A N Q := by
  intro c
  obtain ⟨drawn, notes⟩ := ensures_freshRandom (A := A) (N := N) c
  refine ⟨⟨?_, fun v known => (kept key v).1 known⟩, ?_, fun _ _ => True.intro⟩
  · refine (always_bind ..).2 (drawn.mono fun v c' holds => ?_)
    exact ⟨(kept key v).2 (fresh v holds), fresh v holds⟩
  · exact notes.bind (drawn.mono fun _ _ _ => True.intro)

theorem ensures_random {Q : Value → Prop} (fresh : ∀ v, TakesAfter A v → Q v)
    (kept : ∀ key v, A.kept key v ↔ Q v) (lock : Lock) : (randomProgram lock).Ensures A N Q := by
  have anew : freshRandom.Ensures A N Q := ensures_freshRandom.mono fresh
  have keptFor : ∀ number, (randomProgram.keptFor number).Ensures A N Q := by
    intro number
    cases number with
    | int i => exact ensures_keptRandom fresh kept _
    | _ => exact anew
  cases lock with
  | none => exact anew
  | once => exact ensures_keptRandom fresh kept 0
  | loopId | instanceId => exact (ensures_contextual _).bind fun v _ => keptFor v

theorem ensures_shift : shiftProgram.Ensures A N (Value.Conforms P .matrix) :=
  (plain_vec3 0 _).then fun _ => ensures_pure (Value.conforms_of_kind rfl (by decide))

theorem ensures_scaling : scalingProgram.Ensures A N (Value.Conforms P .matrix) :=
  (plain_vec3 0 _).then fun _ => ensures_pure (Value.conforms_of_kind rfl (by decide))

theorem ensures_rotation (axis : Axis) :
    (rotationProgram axis).Ensures A N (Value.Conforms P .matrix) :=
  (plain_float 0 0).then fun _ => ensures_pure (Value.conforms_of_kind rfl (by decide))

theorem ensures_compose : composeProgram.Ensures A N (Value.Conforms P .matrix) := by
  refine (plain_matrix? 0).then fun first => (plain_matrix? 1).then fun second => ?_
  split
  · exact ensures_pure (Value.conforms_of_kind rfl (by decide))
  · exact ensures_pure (.inl rfl)

theorem ensures_infoProgram (number : Mesh → Nat) :
    (infoProgram number).Ensures A N (Value.Conforms P .int) := by
  refine (plain_mesh? 0).then fun m? => ?_
  cases m? with
  | none => exact ensures_pure (.inl rfl)
  | some m => exact ensures_pure (Value.conforms_of_kind rfl (by decide))

section geometry
variable (first : ∀ c v, A.input 0 c v → v.Holds P)
include first

theorem ensures_passOn :
    Ensures A N (Value.Conforms P .geometry) (do return .ofMesh? (← mesh? 0)) :=
  (ensures_mesh? first).bind fun _ holds => ensures_pure (Value.conforms_ofMesh? holds)

include closed

theorem ensures_computeNormals :
    computeNormalsProgram.Ensures A N (Value.Conforms P .geometry) := by
  refine (ensures_mesh? first).bind fun m? holds => ensures_pure (Value.conforms_ofMesh? ?_)
  intro m hm
  obtain ⟨m, rfl, rfl⟩ := Option.map_eq_some_iff.1 hm
  exact closed.computeNormals m (holds m rfl)

theorem ensures_transform : transformProgram.Ensures A N (Value.Conforms P .geometry) := by
  refine (ensures_mesh? first).bind fun m? holds => ?_
  cases m? with
  | none => exact ensures_pure (.inl rfl)
  | some m =>
    exact plain_transformMatrix.then fun t =>
      ensures_pure (Value.conforms_geometry (closed.transform m t (holds m rfl)))

end geometry

theorem ensures_gatherMeshes {inputs : List Nat}
    (all : ∀ i ∈ inputs, ∀ c v, A.input i c v → v.Holds P) :
    (gatherMeshes inputs).Ensures A N fun ms => ∀ m ∈ ms, P m := by
  induction inputs with
  | nil => exact ensures_pure fun m mem => (List.not_mem_nil mem).elim
  | cons i rest ih =>
    refine (ensures_mesh? (all i (List.mem_cons_self ..))).bind fun m? holds => ?_
    refine (ih fun j hj => all j (List.mem_cons_of_mem _ hj)).bind fun ms later => ensures_pure ?_
    intro m mem
    rcases List.mem_append.1 mem with here | there
    · exact holds m (Option.eq_some_of_filter_eq_some (Option.mem_toList.1 here))
    · exact later m there

include closed in
theorem ensures_joined {parts : List Mesh} (h : ∀ m ∈ parts, P m) :
    (joined parts).Ensures A N (Value.Conforms P .geometry) :=
  ensures_handOn (closed.merged parts h)
    (Value.conforms_ofMesh? fun m hm => closed.mergeAll parts m h hm)

include closed in
theorem ensures_merge (all : ∀ i < 5, ∀ c v, A.input i c v → v.Holds P) :
    mergeProgram.Ensures A N (Value.Conforms P .geometry) :=
  (ensures_gatherMeshes fun i hi => all i (List.mem_range.1 hi)).bind fun _ holds =>
    ensures_joined closed holds

/-- Entries for all vertices but some, each as long as it has to be. -/
def EntriesBut (target : Attribute) (count left : Nat) (entries : List (Option (List Float32))) :
    Prop :=
  entries.length + left = count ∧
    ∀ e ∈ entries, ∀ xs : List Float32, e = some xs → xs.length = target.stride

theorem EntriesBut.cons {target : Attribute} {count left : Nat}
    {entries : List (Option (List Float32))} (h : EntriesBut target count (left + 1) entries)
    {entry : Option (List Float32)}
    (fits : ∀ xs : List Float32, entry = some xs → xs.length = target.stride) :
    EntriesBut target count left (entry :: entries) := by
  refine ⟨(Nat.add_right_comm ..).trans h.1, fun e mem => ?_⟩
  rcases List.mem_cons.1 mem with rfl | mem
  · exact fits
  · exact h.2 e mem

theorem ensures_vertexEntry {target : Attribute} {count left : Nat}
    {entries : List (Option (List Float32))} (h : EntriesBut target count (left + 1) entries)
    (outer : Contexts) (vertex : Nat) :
    (vertexEntry id target outer entries vertex).Ensures A N (EntriesBut target count left) := by
  refine ensures_setContexts _ ((plain_value 1).then fun v => ?_)
  cases given : target.components? v with
  | some xs =>
    refine ensures_pure (h.cons fun xs' same => ?_)
    cases same
    exact Attribute.length_components given
  | none =>
    have without := h.cons fun _ (same : none = some _) => by cases same
    refine Ensures.ite ?_ ?_ _
    · exact (plain_report (by trivial) (by trivial)).then fun _ => ensures_pure without
    · exact ensures_pure without

include closed in
theorem ensures_setAttribute (target : Attribute) (first : ∀ c v, A.input 0 c v → v.Holds P) :
    (setAttributeProgram id target).Ensures A N (Value.Conforms P .geometry) := by
  refine ensures_inScope ((ensures_mesh? first).bind fun m? holds => ?_)
  cases m? with
  | none => exact ensures_pure (.inl rfl)
  | some incoming =>
    have given := holds incoming rfl
    refine (ensures_pure (.inl rfl)).ite ?_ _
    refine (plain_connected 1).then fun _ => (ensures_pure (Value.conforms_geometry given)).ite ?_ _
    refine ensures_currentContexts fun c => (ensures_forEach
      (fun rest => EntriesBut target incoming.vertexCount rest.length)
      (fun vertex _ _ inv => ensures_vertexEntry id inv _ vertex) _ ?_).bind
        fun entries complete => ensures_pure (Value.conforms_geometry ?_)
    · exact ⟨by simp, fun e mem => (List.not_mem_nil mem).elim⟩
    · refine closed.overwrite _ _ _ given ?_ ?_
      · rw [List.length_reverse]
        exact complete.1
      · exact fun e mem => complete.2 e (List.mem_reverse.1 mem)

section placements
include closed

theorem ensures_place {inputs : PlacementInputs} (item : ∀ c v, A.input inputs.item c v → v.Holds P)
    (point : Option Space.Vec3) {copies : List Mesh} (h : ∀ m ∈ copies, P m) :
    (place inputs point copies).Ensures A N fun copies => ∀ m ∈ copies, P m := by
  refine (ensures_mesh? item).bind fun m? holds => ?_
  cases m? with
  | none => exact ensures_pure h
  | some m =>
    refine (ensures_pure h).ite ((plain_placementMatrix _ _).then fun t => ensures_pure ?_) _
    intro copy mem
    rcases List.mem_cons.1 mem with rfl | mem
    · exact closed.transform m t (holds m rfl)
    · exact h copy mem

theorem ensures_placeAt {inputs : PlacementInputs}
    (item : ∀ c v, A.input inputs.item c v → v.Holds P) (outer : Contexts) (step : Execution)
    (point : Option Space.Vec3) {copies : List Mesh} (h : ∀ m ∈ copies, P m) :
    (placeAt inputs outer step point copies).Ensures A N fun copies => ∀ m ∈ copies, P m :=
  ensures_setContexts _ (ensures_place closed item point h)

theorem ensures_joined_reverse {copies : List Mesh} (h : ∀ m ∈ copies, P m) :
    (joined copies.reverse).Ensures A N (Value.Conforms P .geometry) :=
  ensures_joined closed fun part mem => h part (List.mem_reverse.1 mem)

omit closed in
theorem ensures_unlessEmpty {Q : Value → Prop} (null : Q .null) (input : Nat) {p : Program Value}
    (h : p.Ensures A N Q) :
    Ensures A N Q (do if ← neverPlaces input then return .null else p) := by
  have any : (neverPlaces input).Ensures A N fun _ => True := ensures_varying fun _ =>
    (ensures_pure trivial).ite ((plain_mesh? input).then fun _ => ensures_pure trivial) _
  exact any.bind fun _ _ => (ensures_pure null).ite h _

theorem ensures_instantiate (item : ∀ c v, A.input 0 c v → v.Holds P) :
    (instantiateProgram id).Ensures A N (Value.Conforms P .geometry) := by
  refine ensures_inScope ((plain_countInput 1 1).then fun count => ?_)
  refine (ensures_pure (.inl rfl)).ite (ensures_unlessEmpty (.inl rfl) _ ?_) _
  refine ensures_currentContexts fun c => (ensures_forEach (fun _ copies => ∀ m ∈ copies, P m)
    (fun i _ _ h => ensures_placeAt closed item _ _ none h) _ ?_).bind
      fun copies h => ensures_joined_reverse closed h
  exact fun m mem => (List.not_mem_nil mem).elim

variable (item : ∀ c v, A.input 1 c v → v.Holds P)
include item

theorem ensures_placeOnFace (outer : Contexts) (face : Nat) (t : Space.Triangle) {copies : List Mesh}
    (h : ∀ m ∈ copies, P m) (number : Nat) :
    (placeOnFace id outer face t copies number).Ensures A N fun copies => ∀ m ∈ copies, P m :=
  ensures_uniform fun _ => ensures_uniform fun _ => ensures_placeAt closed item outer _ _ h

theorem ensures_placeFaceShare (outer : Contexts) (count : Nat) (share : Float32) (last : Nat)
    {progress : FaceProgress} (h : ∀ m ∈ progress.copies, P m)
    (entry : (Nat × Space.Triangle) × Nat) :
    (placeFaceShare id outer count share last progress entry).Ensures A N
      fun progress => ∀ m ∈ progress.copies, P m := by
  refine (ensures_pure h).ite ?_ _
  exact (ensures_forEach (fun _ copies => ∀ m ∈ copies, P m)
    (fun number _ _ h => ensures_placeOnFace closed id item outer _ _ h number) _ h).bind
      fun copies h => ensures_pure h

theorem ensures_instantiateOnFaces :
    (instantiateOnFacesProgram id).Ensures A N (Value.Conforms P .geometry) := by
  refine ensures_inScope ((plain_baseMesh? id true).then fun base? => ?_)
  cases base? with
  | none => exact ensures_pure (.inl rfl)
  | some base =>
    refine (plain_countInput 2 256).then fun count => ?_
    refine (ensures_pure (.inl rfl)).ite (ensures_unlessEmpty (.inl rfl) _ ?_) _
    refine Ensures.ite ((plain_report (by trivial) (by trivial)).then fun _ => ?_) ?_ _
    all_goals
      refine (ensures_pure (.inl rfl)).ite (ensures_currentContexts fun c => ?_) _
      refine (ensures_forEach (fun _ (progress : FaceProgress) => ∀ m ∈ progress.copies, P m)
        (fun entry _ _ h => ensures_placeFaceShare closed id item _ _ _ _ h entry) _ ?_).bind
          fun progress h => ensures_joined_reverse closed h
      exact fun m mem => (List.not_mem_nil mem).elim

theorem ensures_placeOnVertex (removeDuplicates : Bool) (outer : Contexts) (base : IndexedMesh)
    (density : Float32) {progress : VertexProgress} (h : ∀ m ∈ progress.copies, P m)
    (entry : Space.Vec3 × Nat) :
    (placeOnVertex id removeDuplicates outer base density progress entry).Ensures A N
      fun progress => ∀ m ∈ progress.copies, P m := by
  obtain ⟨point, vertex⟩ := entry
  refine (ensures_pure h).ite ?_ _
  have kept : ∀ m ∈ (if removeDuplicates then
      { progress with seen := progress.seen.insert (pointBits point) } else progress).copies, P m := by
    split <;> exact h
  revert kept
  dsimp only
  generalize (if removeDuplicates = true then _ else progress) = now
  intro kept
  have drawn : Program.Ensures A N (fun _ => True) (do return decide (density ≤ (← uniform))) :=
    ensures_uniform fun _ => ensures_pure trivial
  have chance : (isPassedOver density).Ensures A N fun _ => True := drawn.ite (ensures_pure trivial) _
  refine chance.bind fun _ _ => (ensures_pure kept).ite ?_ _
  exact (ensures_placeAt closed item outer _ _ kept).bind fun copies h => ensures_pure h

theorem ensures_instantiateOnVertices (removeDuplicates : Bool) :
    (instantiateOnVerticesProgram id removeDuplicates).Ensures A N
      (Value.Conforms P .geometry) := by
  refine ensures_inScope ((plain_baseMesh? id false).then fun base? => ?_)
  cases base? with
  | none => exact ensures_pure (.inl rfl)
  | some base =>
    refine (plain_float 2 1).then fun density => ?_
    refine ensures_currentContexts fun c => (ensures_forEach
      (fun _ (progress : VertexProgress) => ∀ m ∈ progress.copies, P m)
      (fun entry _ _ h => ensures_placeOnVertex closed id item _ _ _ _ h entry) _ ?_).bind
        fun progress h => ensures_joined_reverse closed h
    exact fun m mem => (List.not_mem_nil mem).elim

theorem ensures_placeInside (outer : Contexts) {search : Program (Option Space.Vec3)}
    (ends : search.Ensures A N fun _ => True) (remaining number : Nat) {copies : List Mesh}
    (h : ∀ m ∈ copies, P m) :
    (placeInside id outer search remaining number copies).Ensures A N
      fun copies => ∀ m ∈ copies, P m := by
  induction remaining generalizing number copies with
  | zero => exact ensures_pure h
  | succ remaining ih =>
    refine ends.bind fun point? _ => ?_
    cases point? with
    | none => exact ensures_pure h
    | some point =>
      exact (ensures_placeAt closed item outer _ _ h).bind fun copies h => ih (number + 1) h

omit closed item in
theorem ensures_findInside (surface : List Space.Triangle) (low high : Space.Vec3) (attempts : Nat) :
    (findInside surface low high attempts).Ensures A N fun _ => True := by
  induction attempts with
  | zero => exact ensures_pure trivial
  | succ attempts ih =>
    refine ensures_uniform fun _ => ensures_uniform fun _ => ensures_uniform fun _ => ?_
    exact (ensures_pure trivial).ite ih _

theorem ensures_instantiateOnVolume (maxAttempts : UInt32) :
    (instantiateOnVolumeProgram id maxAttempts).Ensures A N (Value.Conforms P .geometry) := by
  refine ensures_inScope ((plain_baseMesh? id true).then fun base? => ?_)
  cases base? with
  | none => exact ensures_pure (.inl rfl)
  | some base =>
    dsimp only
    split
    · exact ensures_pure (.inl rfl)
    · rename_i low high _
      refine (plain_countInput 2 256).then fun count => ?_
      refine (ensures_pure (.inl rfl)).ite (ensures_unlessEmpty (.inl rfl) _ ?_) _
      refine ensures_currentContexts fun c => (ensures_placeInside closed id item _
        (ensures_findInside _ _ _ _) _ _ ?_).bind
          fun copies h => ensures_joined_reverse closed h
      exact fun m mem => (List.not_mem_nil mem).elim

end placements

end Block
end MeshFlow
