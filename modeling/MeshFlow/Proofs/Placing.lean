import MeshFlow.Proofs.Orderly
import MeshFlow.Proofs.Parts

set_option autoImplicit false

/-!
# Placements

A block that places instances goes from one placement to the next: it tells the contexts of the
step, pulls the instance, and where there is one that has positions reads its matrix. What it hands
on is made of the copies in the order of the placements, and nothing else.
-/
namespace MeshFlow
open Space Program Block

namespace Mesh

theorem vertexCount_transform (m : Mesh) (t : Matrix) :
    (m.transform t).vertexCount = m.vertexCount := by
  rw [vertexCount, vertexCount]
  exact congrArg (· / 3) (length_mapVectors ..)

theorem vertexCount_mergeAll {parts : List Mesh} {whole : Mesh}
    (merged : mergeAll? parts = some whole) : whole.vertexCount = totalVertices parts := by
  cases parts with
  | nil => cases merged
  | cons first rest =>
    cases merged
    rw [merge_eq_foldl]
    induction rest generalizing first with
    | nil => simp [totalVertices]
    | cons second rest ih =>
      rw [List.foldl_cons, ih, totalVertices_cons, totalVertices_cons, totalVertices_cons]
      change (first ++ second).vertexCount + _ = _
      rw [vertexCount_append, Nat.add_assoc]

def totalFaces (parts : List Mesh) : Nat := (parts.map faceCount).sum

theorem getD_joinedIndices?_eq (parts : List Mesh) :
    (joinedIndices? parts).getD [] = joinedIndicesAfter 0 [] parts := by
  rw [joinedIndices?]
  split
  · rfl
  · rename_i missing
    have none : ∀ m ∈ parts, m.indices = .none := by simpa using missing
    refine (List.length_eq_zero_iff.1 ?_).symm
    rw [length_joinedIndicesAfter, totalIndices, List.sum_eq_zero_iff]
    simp only [List.mem_map, forall_exists_index, and_imp, forall_apply_eq_imp_iff₂]
    intro m hm
    rw [none m hm]
    rfl

theorem totalIndices_eq {parts : List Mesh} (valid : ∀ m ∈ parts, m.Valid) :
    totalIndices parts = totalFaces parts * 3 := by
  induction parts with
  | nil => rfl
  | cons m rest ih =>
    have others := ih fun p hp => valid p (by simp [hp])
    have own : (m.indices.getD []).length % 3 = 0 := by
      cases found : m.indices with
      | none => rfl
      | some indices => exact (valid m (by simp)).whole_triangles indices found
    simp only [totalIndices, totalFaces, List.map_cons, List.sum_cons, faceCount] at others ⊢
    omega

theorem Joins.faceCount_eq {parts : List Mesh} {whole : Mesh} (valid : ∀ m ∈ parts, m.Valid)
    (h : Joins parts whole) : whole.faceCount = totalFaces parts := by
  rw [faceCount, h.indices, getD_joinedIndices?_eq, length_joinedIndicesAfter,
    totalIndices_eq valid]
  omega

end Mesh

/-- One placement: the step that its contexts tell, and the instance with the matrix of its copy;
none where the instance is null or has no positions. -/
structure Placement where
  step : Execution
  pulled : Option (Mesh × Matrix)

namespace Placement

def instance? (p : Placement) : Option Mesh := p.pulled.map Prod.fst

def copy? (p : Placement) : Option Mesh := p.pulled.map fun (m, t) => m.transform t

/-- The instances that have been pulled, in the order of the placements. -/
def instances (placements : List Placement) : List Mesh := placements.filterMap instance?

def copies (placements : List Placement) : List Mesh := placements.filterMap copy?

def onto (copies : List Mesh) (p : Placement) : List Mesh := p.copy?.toList ++ copies

theorem foldl_onto (placements : List Placement) (done : List Mesh) :
    placements.foldl onto done = (copies placements).reverse ++ done := by
  induction placements generalizing done with
  | nil => rfl
  | cons p rest ih =>
    rw [List.foldl_cons, ih, onto]
    cases found : p.copy? <;> simp [copies, found]

theorem totalVertices_copies (placements : List Placement) :
    Mesh.totalVertices (copies placements) = Mesh.totalVertices (instances placements) := by
  induction placements with
  | nil => rfl
  | cons p rest ih =>
    rcases p with ⟨step, _ | ⟨m, t⟩⟩
    · exact ih
    · change Mesh.totalVertices (m.transform t :: copies rest)
        = Mesh.totalVertices (m :: instances rest)
      rw [Mesh.totalVertices_cons, Mesh.totalVertices_cons, ih, Mesh.vertexCount_transform]

theorem totalFaces_copies (placements : List Placement) :
    Mesh.totalFaces (copies placements) = Mesh.totalFaces (instances placements) := by
  induction placements with
  | nil => rfl
  | cons p rest ih =>
    rcases p with ⟨step, _ | ⟨m, t⟩⟩
    · exact ih
    · exact congrArg (m.faceCount + ·) ih

theorem offsetIndices_copies (base : Nat) (placements : List Placement) :
    Mesh.offsetIndices base (copies placements)
      = Mesh.offsetIndices base (instances placements) := by
  induction placements generalizing base with
  | nil => rfl
  | cons p rest ih =>
    rcases p with ⟨step, _ | ⟨m, t⟩⟩
    · exact ih base
    · change Mesh.offsetIndices base (m.transform t :: copies rest)
        = Mesh.offsetIndices base (m :: instances rest)
      rw [Mesh.offsetIndices, Mesh.offsetIndices, ih, Mesh.vertexCount_transform]
      rfl

theorem copies_eq_nil_iff (placements : List Placement) :
    copies placements = [] ↔ ∀ p ∈ placements, p.pulled = none := by
  simp [copies, List.filterMap_eq_nil_iff, copy?]

theorem length_instances {placements : List Placement}
    (pulled : ∀ p ∈ placements, p.pulled ≠ none) :
    (instances placements).length = placements.length := by
  induction placements with
  | nil => rfl
  | cons p rest ih =>
    have others := ih fun q hq => pulled q (List.mem_cons_of_mem _ hq)
    rcases p with ⟨step, _ | ⟨m, t⟩⟩
    · exact absurd rfl (pulled _ (List.mem_cons_self ..))
    · exact congrArg (· + 1) others

theorem valid_copies {placements : List Placement}
    (valid : ∀ m ∈ instances placements, m.Valid) : ∀ m ∈ copies placements, m.Valid := by
  intro copy mem
  obtain ⟨p, hp, made⟩ := List.mem_filterMap.1 mem
  obtain ⟨⟨m, t⟩, pulled, rfl⟩ := Option.map_eq_some_iff.1 made
  exact (valid m (List.mem_filterMap.2 ⟨p, hp, by simp [instance?, pulled]⟩)).transform t

end Placement

/-- A mesh is put together from the copies of placements, in their order: what its vertices hold is
what those of the copies hold, its indices are those of the instances, each moved up by the vertices
placed before, and it has the vertices and faces of all. -/
structure Mesh.Gathers (placements : List Placement) (whole : Mesh) : Prop where
  positions : whole.positions = (Placement.copies placements).flatMap (·.positions)
  buffer : ∀ k ∈ Attribute.optional, whole.buffer? k =
    if (Placement.copies placements).any fun m => (m.buffer? k).isSome
    then some ((Placement.copies placements).flatMap (·.filled k)) else none
  indices : (whole.indices.getD []).map UInt32.toNat
    = Mesh.offsetIndices 0 (Placement.instances placements)
  vertexCount : whole.vertexCount = Mesh.totalVertices (Placement.instances placements)
  faceCount : whole.faceCount = Mesh.totalFaces (Placement.instances placements)
  valid : whole.validate = .ok ()

theorem Mesh.gathers_mergeAll {placements : List Placement} {whole : Mesh}
    (valid : ∀ m ∈ Placement.instances placements, m.validate = .ok ())
    (few : Mesh.totalVertices (Placement.instances placements) < 2 ^ 32)
    (merged : Mesh.mergeAll? (Placement.copies placements) = some whole) :
    Mesh.Gathers placements whole := by
  have all : ∀ m ∈ Placement.copies placements, m.Valid :=
    Placement.valid_copies fun m hm => (m.validate_eq_ok_iff).1 (valid m hm)
  have joins := Mesh.joins_mergeAll all merged
  constructor
  case positions => exact joins.positions
  case buffer => exact joins.buffer
  case indices =>
    rw [← Placement.totalVertices_copies] at few
    rw [joins.indices, Mesh.getD_joinedIndices?_eq, ← Placement.offsetIndices_copies]
    refine Mesh.map_toNat_joinedIndicesAfter fun j hj => ?_
    have := Mesh.offsetIndices_lt (fun m hm => (all m hm).index_lt') j hj
    omega
  case vertexCount => rw [Mesh.vertexCount_mergeAll merged, Placement.totalVertices_copies]
  case faceCount => rw [joins.faceCount_eq all, Placement.totalFaces_copies]
  case valid => exact (whole.validate_eq_ok_iff).2 (Mesh.Valid.mergeAll all merged)

theorem Value.ofMesh?_eq_null_iff (m? : Option Mesh) : Value.ofMesh? m? = .null ↔ m? = none := by
  cases m? <;> simp [Value.ofMesh?]

/-- What copies are put together to, the latest of which comes first. -/
def Block.merged (copies : List Mesh) : Value := .ofMesh? (Mesh.mergeAll? copies.reverse)

theorem Block.merged_foldl (placements : List Placement) :
    merged (placements.foldl Placement.onto [])
      = .ofMesh? (Mesh.mergeAll? (Placement.copies placements)) := by
  rw [merged, Placement.foldl_onto, List.append_nil, List.reverse_reverse]

theorem Block.merged_eq_null_iff (placements : List Placement) :
    merged (placements.foldl Placement.onto []) = .null ↔ ∀ p ∈ placements, p.pulled = none := by
  rw [merged_foldl, Value.ofMesh?_eq_null_iff, ← Placement.copies_eq_nil_iff]
  cases Placement.copies placements <;> simp [Mesh.mergeAll?]

theorem Block.merged_of_pulled {placements : List Placement}
    (some : ∃ p ∈ placements, p.pulled ≠ none) :
    ∃ whole, merged (placements.foldl Placement.onto []) = .geometry whole ∧
      Mesh.mergeAll? (Placement.copies placements) = .some whole := by
  have copies : Placement.copies placements ≠ [] := by
    rw [ne_eq, Placement.copies_eq_nil_iff]
    obtain ⟨p, hp, pulled⟩ := some
    exact fun none => pulled (none p hp)
  obtain ⟨whole, made⟩ := Mesh.exists_mergeAll? copies
  exact ⟨whole, by rw [merged_foldl, made, Value.ofMesh?], made⟩

theorem Placement.overflows_copies (placements : List Placement) :
    Mesh.overflows (copies placements) = Mesh.overflows (instances placements) := by
  have after : ∀ base, Mesh.overshootsAfter base (copies placements)
      = Mesh.overshootsAfter base (instances placements) := by
    induction placements with
    | nil => exact fun _ => rfl
    | cons p rest ih =>
      intro base
      rcases p with ⟨step, _ | ⟨m, t⟩⟩
      · exact ih base
      · change Mesh.overshootsAfter base (m.transform t :: copies rest)
          = Mesh.overshootsAfter base (m :: instances rest)
        rw [Mesh.overshootsAfter, Mesh.overshootsAfter, ih, Mesh.vertexCount_transform]
        rfl
  exact after 0

theorem Graph.ends_joined {g : Graph} {above : Supplier} {owner : BlockId} {s : Session}
    (placements : List Placement) (post : Value → Session → Prop) :
    Ends (g.runProgram above owner (joined (placements.foldl Placement.onto []).reverse)) s post ↔
      post (merged (placements.foldl Placement.onto []))
        (s.noting (Mesh.overflows (Placement.instances placements))
          (Mesh.totalVertices (Placement.instances placements))) := by
  rw [joined, ends_handOn, Placement.foldl_onto, List.append_nil, List.reverse_reverse,
    Placement.overflows_copies, Placement.totalVertices_copies, merged, List.reverse_reverse]

/-- Under the contexts of the placements, loop and instance are numbered from zero on. -/
def Placement.Numbered (outer : Contexts) (placements : List Placement) (count : Nat) : Prop :=
  placements.map (fun p => ((outer.placing p.step).lookup .loopId,
      (outer.placing p.step).lookup .instanceId))
    = (List.range count).map fun i => (Value.ofNat i, Value.ofNat i)

theorem Placement.numbered_of_loopIndex {outer : Contexts} {placements : List Placement}
    {count : Nat} (numbers : placements.map (·.step.loopIndex) = List.range count) :
    Numbered outer placements count := by
  rw [Numbered, ← numbers, List.map_map]
  rfl

/-- What is pulled for a placement from one session to another: nothing, where the instance is null
or has no positions, and else the instance and its matrix, which is read next. -/
inductive Graph.Pulls (g : Graph) (id : BlockId) (inputs : PlacementInputs) (point : Option Vec3)
    (s : Session) : Option (Mesh × Matrix) → Session → Prop
  | nothing {m? : Option Mesh} {s' : Session} :
    (g.readMesh? g.supplier (.input id inputs.item)).run s = some (m?, s') →
    m?.any Mesh.hasPositions = false → g.Pulls id inputs point s none s'
  | copy {m : Mesh} {t : Matrix} {s' s'' : Session} :
    (g.readMesh? g.supplier (.input id inputs.item)).run s = some (some m, s') →
    m.hasPositions = true →
    (g.runProgram g.supplier id (placementMatrix inputs point)).run s' = some (t, s'') →
    g.Pulls id inputs point s (some (m, t)) s''

/-- A placement is made under the contexts of its step, at the point of the step if it has one. -/
def Graph.Places (g : Graph) (id : BlockId) (inputs : PlacementInputs) (outer : Contexts)
    (s : Session) (p : Placement) (s' : Session) : Prop :=
  g.Pulls id inputs p.step.position { s with contexts := outer.placing p.step } p.pulled s'

theorem Block.restores_neverPlaces (input : Nat) : (neverPlaces input).Restores := by
  have varies : (varying input).Restores := fun _ _ _ => rfl
  refine varies.bind fun b => ?_
  cases b with
  | true => exact restores_pure _
  | false => exact (plain_mesh? input).restores.bind fun _ => restores_pure _

namespace Graph.InOrder
variable {g : Graph} {s : Session} {id : BlockId}

theorem ends_mesh? (order : g.InOrder) (orderly : s.Orderly g) (i : Nat) :
    Ends (g.runProgram g.supplier id (mesh? i)) s fun m? s' =>
      s.GoesOn g s' ∧ (g.readMesh? g.supplier (.input id i)).run s = some (m?, s') :=
  order.ends_program orderly id (plain_mesh? i).restores

theorem ends_countInput (order : g.InOrder) (orderly : s.Orderly g) (i : Nat) (usual : Int32) :
    Ends (g.runProgram g.supplier id (countInput i usual)) s fun n s' => s.GoesOn g s' ∧
      ∃ count, n = count.toInt.toNat ∧
        (g.readInt g.supplier (.input id i) usual).run s = some (count, s') := by
  rw [countInput, ends_runProgram_bind]
  refine (order.ends_program orderly id (plain_int i usual).restores).mono ?_
  rintro count s' ⟨on, read⟩
  exact (ends_return ..).2 ⟨on, count, rfl, read⟩

theorem ends_place (order : g.InOrder) (orderly : s.Orderly g) (inputs : PlacementInputs)
    (point : Option Vec3) (copies : List Mesh) :
    Ends (g.runProgram g.supplier id (place inputs point copies)) s fun copies' s' =>
      s'.Orderly g ∧ ∃ pulled, g.Pulls id inputs point s pulled s' ∧
        copies' = (pulled.map fun (m, t) => m.transform t).toList ++ copies := by
  rw [place, ends_runProgram_bind]
  refine (order.ends_mesh? orderly inputs.item).mono ?_
  rintro m? s' ⟨on, read⟩
  cases m? with
  | none => exact (ends_return ..).2 ⟨on.orderly, none, .nothing read rfl, rfl⟩
  | some m =>
    cases positions : m.hasPositions with
    | false =>
      simp only [positions, Bool.not_false, if_true]
      exact (ends_return ..).2 ⟨on.orderly, none, .nothing read (by simpa using positions), rfl⟩
    | true =>
      simp only [positions, Bool.not_true, Bool.false_eq_true, if_false]
      rw [ends_runProgram_bind]
      refine (order.ends_program on.orderly id (plain_placementMatrix inputs point).restores).mono ?_
      rintro t s'' ⟨on', matrix⟩
      exact (ends_return ..).2 ⟨on'.orderly, some (m, t), .copy read positions matrix, rfl⟩

theorem ends_placeAt (order : g.InOrder) (orderly : s.Orderly g) (inputs : PlacementInputs)
    (outer : Contexts) (step : Execution) (copies : List Mesh) :
    Ends (g.runProgram g.supplier id (placeAt inputs outer step step.position copies)) s
      fun copies' s' => s'.Orderly g ∧
        ∃ p, g.Places id inputs outer s p s' ∧ p.step = step ∧
          copies' = Placement.onto copies p := by
  rw [placeAt, ends_runProgram_bind, ends_setContexts]
  refine (order.ends_place (orderly.enter _) inputs step.position copies).mono ?_
  rintro _ s' ⟨orderly', pulled, pulls, rfl⟩
  exact ⟨orderly', ⟨step, pulled⟩, pulls, rfl, rfl⟩

end Graph.InOrder

theorem Session.record_of_mem {s : Session} {d : Diagnostic} (h : d ∈ s.diagnostics) :
    s.record d = s := by
  rw [Session.record, if_pos (List.contains_iff_mem.2 h)]

/-- An input that yields one value, and is read without changing anything, is adapted to a geometry
once and for all: what cannot be adapted is reported the first time alone. -/
theorem Graph.reads_again {g : Graph} {above : Supplier} {p : SocketId} {s t : Session} {v : Value}
    (fixed : ∀ t' : Session, t'.stored = t.stored → t'.built = t.built →
      (g.readInput above p).run t' = some (v, t'))
    {m? : Option Mesh} (read : (g.readMesh? above p).run t = some (m?, s)) (contexts : Contexts) :
    (g.readMesh? above p).run { s with contexts } = some (m?, { s with contexts }) := by
  obtain ⟨d, adapts⟩ : ∃ d, ∀ t' : Session, t'.stored = t.stored → t'.built = t.built →
      (g.readMesh? above p).run t' = some ((v.coerce? .geometry).bind Value.mesh?,
        if (v.coerce? .geometry).isNone ∧ v.isNull = false then t'.record d else t') := by
    refine ⟨.typeMismatch p.block (((g.socket? p).map (·.spec.name)).getD "") .geometry v.kind?, ?_⟩
    intro t' stored built
    rw [Graph.readMesh?, Graph.adaptInput]
    simp only [StateT.run_bind, fixed t' stored built, Option.bind_eq_bind, Option.bind_some]
    cases adapted : v.coerce? .geometry with
    | some w => simp
    | none => cases null : v.isNull <;> simp
  have first := adapts t rfl rfl
  rw [read] at first
  by_cases reported : (v.coerce? .geometry).isNone ∧ v.isNull = false
  · rw [if_pos reported] at first
    cases first
    obtain ⟨stored, built, -⟩ := t.unbuilt_record d
    let again : Session := { t.record d with contexts }
    have known : d ∈ again.diagnostics := (t.mem_record d d).2 (.inr rfl)
    refine (adapts again stored built).trans ?_
    rw [if_pos reported, Session.record_of_mem known]
  · rw [if_neg reported] at first
    cases first
    refine (adapts { s with contexts } rfl rfl).trans ?_
    rw [if_neg reported]

/-- If no read of the instance would add anything, every pull at a later step comes to nothing and
leaves the session as it is. -/
theorem Graph.pulls_nothing {g : Graph} {s s' : Session} {id : BlockId} {inputs : PlacementInputs}
    (never : (g.runProgram g.supplier id (neverPlaces inputs.item)).run s = some (true, s')) :
    (∃ t m?, (g.readMesh? g.supplier (.input id inputs.item)).run t = some (m?, s') ∧
      m?.any Mesh.hasPositions = false) ∧
    ∀ point contexts,
      g.Pulls id inputs point { s' with contexts } none { s' with contexts } := by
  have probe : IfEnds (g.runProgram g.supplier id (neverPlaces inputs.item)) s fun never s' =>
      never = true → ∃ t m?,
        (g.isVarying g.supplier (.input id inputs.item)).run s = some (false, t) ∧
        (g.readMesh? g.supplier (.input id inputs.item)).run t = some (m?, s') ∧
        m?.any Mesh.hasPositions = false := by
    change IfEnds (g.runProgram g.supplier id (Program.bind (varying inputs.item) _)) s _
    rw [runProgram_bind, ifEnds_bind]
    intro varies t varying
    cases varies with
    | true => exact (ifEnds_pure ..).2 fun same => nomatch same
    | false =>
      change IfEnds (g.runProgram g.supplier id (Program.bind (mesh? inputs.item) _)) t _
      rw [runProgram_bind, ifEnds_bind]
      intro m? s' read
      refine (ifEnds_pure ..).2 fun nothing => ⟨t, m?, ?_, read, by simpa using nothing⟩
      simpa [Program.varying, runProgram] using varying
  obtain ⟨t, m?, varying, read, nothing⟩ := probe _ _ never rfl
  obtain ⟨v, fixed⟩ := fixed_input varying
  exact ⟨⟨t, m?, read, nothing⟩, fun point contexts => .nothing (reads_again fixed read _) nothing⟩

theorem Graph.steps_nothing {g : Graph} {s : Session} {id : BlockId} {inputs : PlacementInputs}
    (nothing : ∀ point contexts,
      g.Pulls id inputs point { s with contexts } none { s with contexts })
    (outer : Contexts) (steps : List Execution) :
    ∃ s', Steps (g.Places id inputs outer) s (steps.map fun step => ⟨step, none⟩) s' := by
  have from_contexts : ∀ contexts, ∃ s', Steps (g.Places id inputs outer) { s with contexts }
      (steps.map fun step => ⟨step, none⟩) s' := by
    induction steps with
    | nil => exact fun contexts => ⟨_, .nil _⟩
    | cons step rest ih =>
      intro contexts
      obtain ⟨s', others⟩ := ih (outer.placing step)
      exact ⟨s', .cons (nothing step.position (outer.placing step)) others⟩
  exact from_contexts s.contexts

end MeshFlow
