import MeshFlow.Proofs.Loaded
import MeshFlow.Proofs.Reload

set_option autoImplicit false

/-!
# Loading again what has been loaded

Reading narrows floats, so that a number that is finite in double precision may come in as an
infinity; and infinities are written as null. Null where a number is wanted is refused, and null
where a literal is wanted is as good as none. So a graph that has been loaded and saved loads again
just when no infinity stands in a list of numbers.
-/
namespace MeshFlow

theorem mapM_eq_none {α β : Type} {f : α → Option β} {xs : List α} {x : α} (mem : x ∈ xs)
    (fails : f x = none) : xs.mapM f = none := by
  induction xs with
  | nil => cases mem
  | cons y rest ih =>
    rw [List.mapM_cons]
    rcases List.mem_cons.1 mem with rfl | mem
    · rw [fails]
      rfl
    · rw [ih mem]
      cases f y <;> rfl

namespace Number

theorem not_isFinite_widen {x : Float32} (not : x.isFinite = false) :
    (widen x).isFinite = false := by
  have unread : ∀ negative mantissa exponent, reading x ≠ .finite negative mantissa exponent := by
    intro negative mantissa exponent read
    have finite := (isFinite_iff x).2 ((Format.read_finite_iff ..).1 ⟨_, _, _, read⟩)
    rw [finite] at not
    cases not
  rw [widen]
  split
  · decide +kernel
  · split <;> decide +kernel
  · rename_i read
    exact absurd read (unread _ _ _)

end Number

namespace Json

theorem eq_null_of_isNull {j : Json} (h : j.isNull = true) : j = null := by
  cases j with
  | null => rfl
  | _ => cases h

theorem ofFloat32_of_not_finite {x : Float32} (not : x.isFinite = false) : ofFloat32 x = null := by
  rw [ofFloat32, ofFloat, Number.not_isFinite_widen not]
  rfl

theorem mapM_ofFloat32_eq_none {xs : List Float32} {read : Json → Option Float32}
    (refuses : read null = none) (not : ¬ AllFinite xs) : (xs.map ofFloat32).mapM read = none := by
  simp only [AllFinite, not_forall, Bool.not_eq_true] at not
  obtain ⟨x, mem, not⟩ := not
  have written := ofFloat32_of_not_finite not
  exact mapM_eq_none (List.mem_map_of_mem mem) (written ▸ refuses)

theorem allFinite_of_list? {xs ys : List Float32}
    (read : list? float32? (.array (xs.map ofFloat32)) = some ys) : AllFinite xs := by
  by_contra not
  have refused : list? float32? (.array (xs.map ofFloat32)) = none :=
    mapM_ofFloat32_eq_none rfl not
  rw [refused] at read
  cases read

end Json

namespace Mesh
open Json

theorem allFinite_of_optional {xs ys : Option (List Float32)}
    (read : optional (list? float32?) ((xs.map floatsToJson).map normal) = some ys) :
    AllFinite (xs.getD []) := by
  cases xs with
  | none => exact List.forall_mem_nil _
  | some xs =>
    obtain ⟨_, read, -⟩ := Option.map_eq_some_iff.1 read
    rw [floatsToJson_normal] at read
    exact allFinite_of_list? read

theorem allFinite_of_ofJson? {m m' : Mesh} (read : ofJson? m.toJson.normal = some m') :
    AllFinite m.floats := by
  simp only [ofJson?, fields?_toJson, Option.bind_eq_bind, Option.bind_some, orElse,
    floatsToJson_normal, Option.bind_eq_some_iff] at read
  obtain ⟨_, positions, _, normals, _, uvs, _, colors, _, tangents, -⟩ := read
  simp only [floats, AllFinite, List.mem_append]
  rintro x ((((mem | mem) | mem) | mem) | mem)
  · exact allFinite_of_list? positions x mem
  · exact allFinite_of_optional normals x mem
  · exact allFinite_of_optional uvs x mem
  · exact allFinite_of_optional colors x mem
  · exact allFinite_of_optional tangents x mem

end Mesh

namespace Value

/-- What is written as null, and what has no infinity in it. -/
def Legible (v : Value) : Prop := v.toJson.isNull = true ∨ AllFinite v.floats

theorem jsonNumbers?_of_not_legible {v : Value} (not : ¬ v.Legible) :
    jsonNumbers? v.toJson = none := by
  obtain ⟨notNull, notFinite⟩ := not_or.1 not
  cases v with
  | null | geometry _ => exact absurd rfl notNull
  | int _ => exact absurd (List.forall_mem_nil _) notFinite
  | float x =>
    have infinite : x.isFinite = false := by simpa [AllFinite, floats] using notFinite
    exact absurd (by rw [toJson, Json.ofFloat32_of_not_finite infinite]; rfl) notNull
  | vector2 _ | vector3 _ | vector4 _ | matrix _ => exact Json.mapM_ofFloat32_eq_none rfl notFinite

theorem ofJson?_of_not_legible {v : Value} (not : ¬ v.Legible) (k : Kind) :
    ofJson? k v.toJson = none := by
  rw [ofJson?, if_neg (not_or.1 not).1, jsonNumbers?_of_not_legible not]
  rfl

theorem literal?_of_not_legible {v : Value} (not : ¬ v.Legible) (declared : Kind) :
    literal? declared v.toJson = none := by
  rw [literal?]
  split
  · exact Option.bind_eq_none_iff.2 fun k _ => ofJson?_of_not_legible not k
  · exact ofJson?_of_not_legible not declared

theorem isWritten_of_isNull {v : Value} (h : v.toJson.isNull = false) : v.IsWritten := by
  cases v with
  | null | geometry _ => cases h
  | _ => trivial

end Value

namespace Socket

def Legible (s : Socket) : Prop := ∀ v, s.default? = some v → v.Legible

/-- Where a literal is left out since it is written as null, the input declares none that would take
its place. -/
def Lossless (s : Socket) : Prop :=
  ∀ v, s.default? = some v → v.toJson.isNull = true → s.spec.default? = none

variable {s s' : Socket}

theorem reread_of_unsaved (unsaved : s.save.value = none) (id : BlockId) :
    s.reread id = .ok { s with default? := s.spec.default? } := by
  rw [reread, unsaved]

theorem value_save_eq_none_iff (s : Socket) :
    s.save.value = none ↔ ∀ v, s.default? = some v → v.toJson.isNull = true := by
  rw [save]
  cases s.default? with
  | none => simp
  | some v => simp

theorem Loaded.returns (h : s.Loaded) (legible : s.Legible) (saved : s.save.value ≠ none) :
    s.Returns := by
  simp only [ne_eq, value_save_eq_none_iff, not_forall, Bool.not_eq_true] at saved
  obtain ⟨v, literal, notNull⟩ := saved
  have written := Value.isWritten_of_isNull notNull
  refine ⟨h.1, fun w same => ?_⟩
  cases literal.symm.trans same
  constructor
  · exact (legible v literal).resolve_left (by simp [notNull])
  · refine (h.2 v literal).resolve_left fun null => ?_
    subst null
    exact written

theorem reread_of_not_legible (not : ¬ s.Legible) (id : BlockId) (s' : Socket) :
    s.reread id ≠ .ok s' := by
  simp only [Legible, not_forall] at not
  obtain ⟨v, literal, not⟩ := not
  have value : s.save.value = some v.toJson := by
    rw [save, literal, Option.map_some, Option.filter_some, Bool.eq_false_iff.2 (not_or.1 not).1]
    rfl
  rw [reread, value]
  simp only [Value.literal?_of_not_legible not]
  intro read
  cases read

theorem Loaded.exists_reread_iff (h : s.Loaded) (id : BlockId) :
    (∃ s', s.reread id = .ok s') ↔ s.Legible := by
  constructor
  · rintro ⟨s', read⟩
    by_contra not
    exact reread_of_not_legible not id s' read
  · intro legible
    by_cases saved : s.save.value = none
    · exact ⟨_, reread_of_unsaved saved id⟩
    · exact ⟨s, (h.returns legible saved).reread id⟩

theorem Loaded.lossless_iff (h : s.Loaded) :
    s.Lossless ↔ (s.save.value = none → s.spec.default? = none) := by
  rw [value_save_eq_none_iff]
  constructor
  · intro keeps unsaved
    cases literal : s.default? with
    | none => exact h.1 literal
    | some v => exact keeps v literal (unsaved v literal)
  · intro keeps v literal null
    exact keeps fun w same => Option.some.inj (literal.symm.trans same) ▸ null

/-- Where an input is saved without a literal, the one that it declares comes in. -/
theorem Loaded.save_reread_iff (h : s.Loaded) (declared : s.spec.DefaultFits) {id : BlockId}
    (read : s.reread id = .ok s') : s'.save = s.save ↔ s.Lossless := by
  rw [h.lossless_iff]
  by_cases saved : s.save.value = none
  · cases (reread_of_unsaved saved id).symm.trans read
    cases spec : s.spec.default? with
    | none => exact iff_of_true (congrArg (SavedInput.mk s.spec.name) saved.symm) fun _ => rfl
    | some d =>
      obtain ⟨finite, fits⟩ := declared d spec
      refine iff_of_false (fun same => ?_) fun keeps => absurd (keeps saved) nofun
      rw [← congrArg SavedInput.value same, value_save rfl fits.1 finite] at saved
      cases saved
  · have legible := (h.exists_reread_iff id).1 ⟨s', read⟩
    cases ((h.returns legible saved).reread id).symm.trans read
    exact iff_of_true rfl fun unsaved => absurd unsaved saved

end Socket

namespace Block
open Json

def Legible : Block → Prop
  | input settings => settings.value.Legible
  | b => AllFinite b.floats

variable {b b' : Block}

theorem Loaded.inputSettings_eq {settings : InputBlock} (h : (input settings).Loaded)
    (legible : settings.value.Legible) : ∃ v, v.toJson = settings.value.toJson ∧
      inputSettings (inputProperties settings) = .ok (.input { settings with value := v }) := by
  by_cases null : settings.value.toJson.isNull = true
  · refine ⟨.null, (eq_null_of_isNull null).symm, ?_⟩
    rw [inputSettings_inputProperties, Value.ofJson?, if_pos null]
  · refine ⟨settings.value, rfl, ?_⟩
    exact inputSettings_of_isTyped h.made (legible.resolve_left null) h.noGeometry h.typed

theorem inputSettings_of_not_legible {settings : InputBlock} (not : ¬ settings.value.Legible) :
    inputSettings (inputProperties settings) ≠ .ok b' := by
  rw [inputSettings_inputProperties, Value.ofJson?_of_not_legible not]
  exact nofun

theorem vec3?_of_not_finite {v : Space.Vec3} (not : ¬ AllFinite v.toList) :
    (vec3ToJson v).vec3? = none := by
  rw [vec3?, vec3ToJson, floatsToJson, list?, mapM_ofFloat32_eq_none rfl not]
  rfl

theorem list?_of_not_finite_points {points : List Space.Vec3}
    (not : ¬ AllFinite (points.flatMap Space.Vec3.toList)) :
    list? vec3? (.array (points.map vec3ToJson)) = none := by
  have some_not : ¬ ∀ v ∈ points, AllFinite v.toList := fun all => not fun x hx => by
    obtain ⟨v, mem, hx⟩ := List.mem_flatMap.1 hx
    exact all v mem x hx
  simp only [not_forall] at some_not
  obtain ⟨v, mem, not⟩ := some_not
  exact mapM_eq_none (List.mem_map_of_mem mem) (vec3?_of_not_finite not)

theorem optional_of_not_finite {data : Option Mesh}
    (not : ¬ AllFinite ((data.map Mesh.floats).getD [])) :
    optional Mesh.ofJson? (some ((data.map Mesh.toJson).getD .null).normal) = none := by
  cases data with
  | none => exact absurd (List.forall_mem_nil _) not
  | some m =>
    refine Option.map_eq_none_iff.2 (Option.eq_none_iff_forall_ne_some.2 fun m' read => ?_)
    exact not (Mesh.allFinite_of_ofJson? read)

theorem ofSettings?_of_not_finite (not : ¬ AllFinite b.floats)
    (notInput : ∀ settings, b ≠ input settings) : b.usual.ofSettings? b.properties = none := by
  cases b with
  | input settings => exact absurd rfl (notInput settings)
  | pointList points =>
    rw [usual, ofSettings?, properties, oneSetting?_object, list?_of_not_finite_points not]
    rfl
  | mesh data reverseWinding =>
    rw [usual, ofSettings?, meshSettings?_properties, optional_of_not_finite not]
    rfl
  | _ => exact absurd (List.forall_mem_nil _) not

theorem withProperties_of_not_legible (standard : b.IsStandard) (not : ¬ b.Legible) :
    b.usual.withProperties b.properties ≠ .ok b' := by
  obtain ⟨settings, rfl⟩ | notInput := exists_or_forall_not (b = .input ·)
  · exact inputSettings_of_not_legible not
  have notFinite : ¬ AllFinite b.floats := by
    cases b with
    | input settings => exact absurd rfl (notInput settings)
    | _ => exact not
  rw [withProperties_usual notInput, isNull_properties standard]
  simp [ofSettings?_of_not_finite notFinite notInput]

theorem Loaded.exists_withProperties (h : b.Loaded) (legible : b.Legible) :
    ∃ b', b.usual.withProperties b.properties = .ok b' ∧ b'.properties = b.properties := by
  cases b with
  | input settings =>
    obtain ⟨v, written, read⟩ := h.inputSettings_eq legible
    exact ⟨_, read, by rw [properties, properties, inputProperties, inputProperties, written]⟩
  | _ => exact ⟨_, usual_withProperties h.made legible h.noGeometry h.typed, rfl⟩

end Block

theorem exists_forall₂_iff {α β : Type} {R : α → β → Prop} {xs : List α} :
    (∃ ys, List.Forall₂ R xs ys) ↔ ∀ x ∈ xs, ∃ y, R x y := by
  induction xs with
  | nil => exact iff_of_true ⟨[], .nil⟩ (List.forall_mem_nil _)
  | cons x rest ih =>
    rw [List.forall_mem_cons, ← ih]
    constructor
    · rintro ⟨_, _ | ⟨first, others⟩⟩
      exact ⟨⟨_, first⟩, _, others⟩
    · rintro ⟨⟨y, first⟩, ys, others⟩
      exact ⟨y :: ys, .cons first others⟩

namespace Node

/-- A block that can be read again from what is written of it. -/
structure Legible (n : Node) : Prop where
  block : n.block.Legible
  literals : ∀ s ∈ n.inputs, s.Legible

def Lossless (n : Node) : Prop := ∀ s ∈ n.inputs, s.Lossless

variable {n n' : Node}

theorem Loaded.exists_reread_iff (h : n.Loaded) (id : BlockId) :
    (∃ n', n.reread id = .ok n') ↔ n.Legible := by
  have standard := h.block.made.isStandard
  constructor
  · rintro ⟨n', read⟩
    obtain ⟨block, inputs, made, read, -⟩ := (reread_eq_ok_iff standard _).1 read
    constructor
    · by_contra not
      exact Block.withProperties_of_not_legible standard not made
    · intro s mem
      exact ((h.literals s mem).exists_reread_iff id).1 (exists_forall₂_iff.1 ⟨_, read⟩ s mem)
  · intro legible
    obtain ⟨block, made, -⟩ := h.block.exists_withProperties legible.block
    obtain ⟨inputs, read⟩ := exists_forall₂_iff.2 fun s mem =>
      ((h.literals s mem).exists_reread_iff id).2 (legible.literals s mem)
    exact ⟨_, (reread_eq_ok_iff standard _).2 ⟨block, inputs, made, read, rfl⟩⟩

theorem Loaded.declared (h : n.Loaded) : ∀ s ∈ n.inputs, s.Loaded ∧ s.spec.DefaultFits := by
  intro s mem
  refine ⟨h.literals s mem, h.block.made.isStandard.defaultFits ?_⟩
  exact h.inputSpecs ▸ List.mem_map_of_mem mem

theorem Loaded.save_reread_iff (h : n.Loaded) {id : BlockId} (read : n.reread id = .ok n') :
    n'.save id = n.save id ↔ n.Lossless := by
  have standard := h.block.made.isStandard
  have legible := (h.exists_reread_iff id).1 ⟨n', read⟩
  have resets := resets_of_reread standard read
  obtain ⟨block, inputs, made, literals, rfl⟩ := (reread_eq_ok_iff standard _).1 read
  obtain ⟨block', made', properties⟩ := h.block.exists_withProperties legible.block
  cases made.symm.trans made'
  have inputs_iff : inputs.map Socket.save = n.inputs.map Socket.save ↔ n.Lossless := by
    refine map_eq_map_iff_of_forall₂ ((List.forall₂_and_left ..).2 ⟨h.declared, literals⟩) ?_
    exact fun s s' ⟨⟨loaded, declared⟩, read⟩ => loaded.save_reread_iff declared read
  rw [← inputs_iff]
  constructor
  · exact congrArg SavedBlock.inputs
  · intro same
    rw [save, save]
    simp only [resets.className, same, properties]

end Node

namespace Graph

def Legible (g : Graph) : Prop := ∀ id n, g.node? id = some n → n.Legible

def Lossless (g : Graph) : Prop := ∀ id n, g.node? id = some n → n.Lossless

variable {g g' : Graph}

theorem Loaded.exists_reread_iff (h : g.Loaded) : (∃ g', g.reread = .ok g') ↔ g.Legible := by
  have loaded := h.coherent.forall_node?_iff.1 h.nodes
  rw [Legible, h.coherent.forall_node?_iff]
  constructor
  · rintro ⟨g', read⟩ entry mem
    obtain ⟨nodes, read, -⟩ := (reread_eq_ok_iff ..).1 read
    obtain ⟨entry', -, read⟩ := exists_forall₂_iff.1 ⟨nodes, read⟩ entry mem
    exact ((loaded entry mem).exists_reread_iff entry.1).1 ⟨_, read⟩
  · intro legible
    have each : ∀ entry ∈ g.nodes, ∃ entry' : BlockId × Node,
        entry'.1 = entry.1 ∧ entry.2.reread entry.1 = .ok entry'.2 := by
      intro entry mem
      obtain ⟨n', read⟩ := ((loaded entry mem).exists_reread_iff entry.1).2 (legible entry mem)
      exact ⟨(entry.1, n'), rfl, read⟩
    obtain ⟨nodes, read⟩ := exists_forall₂_iff.2 each
    exact ⟨_, (reread_eq_ok_iff ..).2 ⟨nodes, read, rfl⟩⟩

theorem Loaded.save_reread_iff (h : g.Loaded) (read : g.reread = .ok g') :
    g'.save = g.save ↔ g.Lossless := by
  have loaded := h.coherent.forall_node?_iff.1 h.nodes
  have resets := h.coherent.resets_of_reread read
  obtain ⟨nodes, entries, rfl⟩ := (reread_eq_ok_iff ..).1 read
  have blocks_iff : nodes.map (fun entry => entry.2.save entry.1)
      = g.nodes.map (fun entry => entry.2.save entry.1) ↔ ∀ entry ∈ g.nodes, entry.2.Lossless := by
    refine map_eq_map_iff_of_forall₂ ((List.forall₂_and_left ..).2 ⟨loaded, entries⟩) ?_
    rintro ⟨id, n⟩ ⟨_, n'⟩ ⟨loaded, rfl, read⟩
    exact loaded.save_reread_iff read
  rw [Lossless, h.coherent.forall_node?_iff, ← blocks_iff]
  constructor
  · exact congrArg SavedGraph.blocks
  · intro same
    exact congrArg₂ (SavedGraph.mk g.output) same resets.connections_save

/-- Whatever loads can be saved and loads again just when no infinity stands in a list of numbers,
and it is then saved alike just when no input that declares a literal holds one that is written as
null. -/
theorem reopens_iff {saved : SavedGraph} (done : load .standard saved = .ok g) :
    ((∃ g', load .standard g.save = .ok g') ↔ g.Legible) ∧
    ∀ g', load .standard g.save = .ok g' → (g'.save = g.save ↔ g.Lossless) := by
  have loaded := loaded_of_load done
  have alike := loaded.coherent.load_save
  constructor
  · rw [← alike.exists_ok_iff, loaded.exists_reread_iff]
  · intro g' again
    obtain ⟨g'', read, same⟩ := alike.of_ok_right again
    rw [same.save, loaded.save_reread_iff read]

def farPoint : SavedGraph where
  blocks := [{
    className := "PointListBlock"
    id := 0
    properties := [("points", .array [.array
      [.number (.float (Number.double false 1 128)), .number (.int 0), .number (.int 0)]])] }]

def farPoints : List Space.Vec3 := [⟨Number.infinity, Number.ofInt 0, Number.ofInt 0⟩]

def farGraph : Graph where
  nodes := [(0, .ofBlock "" (.pointList farPoints))]
  nextId := 1

theorem load_farPoint : load .standard farPoint = .ok farGraph := rfl

theorem lost_farPoint : load .standard farPoint = .ok farGraph ∧
    ¬ ∃ g', load .standard farGraph.save = .ok g' := by
  refine ⟨load_farPoint, fun again => ?_⟩
  have legible := (reopens_iff load_farPoint).1.1 again 0 _ rfl
  have finite := legible.block Number.infinity (List.Mem.head _)
  revert finite
  decide +kernel

end Graph

end MeshFlow
