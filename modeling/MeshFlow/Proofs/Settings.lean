import MeshFlow.Block.Registry
import MeshFlow.Proofs.Literals
import MeshFlow.Proofs.Members
import MeshFlow.Proofs.Standard

set_option autoImplicit false

/-!
# Settings that come back

The settings of a standard block read back as the same block, one codec after another. The literal
of an input block comes back by the name of its kind, so that a literal of a kind that is still to
be found does not.
-/
namespace MeshFlow

theorem Operation.lookup_name (o : Operation) : table.lookup o.name = some o := by
  cases o <;> rfl

theorem Lock.lookup_name (l : Lock) : table.lookup l.name = some l := by
  cases l <;> rfl

theorem Axis.lookup_name (a : Axis) : table.lookup a.name = some a := by
  cases a <;> rfl

theorem ContextualSource.lookup_name (s : ContextualSource) : table.lookup s.name = some s := by
  cases s <;> rfl

theorem Kind.lookup_name (k : Kind) : table.lookup k.name = some k := by
  cases k <;> rfl

namespace Json

theorem normal_ofFloat32 (x : Float32) : (ofFloat32 x).normal = ofFloat32 x := by
  rw [ofFloat32, ofFloat]
  split <;> rfl

theorem normalItems_eq_map (items : List Json) : normalItems items = items.map normal := by
  induction items with
  | nil => rfl
  | cons item rest ih => rw [normalItems, ih, List.map_cons]

theorem normalMembers_eq_map (members : List (String × Json)) :
    normalMembers members = members.map fun m => (m.1, m.2.normal) := by
  induction members with
  | nil => rfl
  | cons member rest ih => rw [normalMembers, ih, List.map_cons]

theorem lookup_normalMembers (members : List (String × Json)) (key : String) :
    (normalMembers members).lookup key = (members.lookup key).map normal := by
  induction members with
  | nil => rfl
  | cons member rest ih =>
    rw [normalMembers, lookup_cons_ite, lookup_cons_ite, ih]
    split <;> rfl

theorem distinct_normalMembers {members : List (String × Json)} (distinct : Distinct members) :
    Distinct (normalMembers members) := by
  rw [Distinct, normalMembers_eq_map, List.map_map]
  exact distinct

theorem fields?_normal {members : List (String × Json)} (distinct : Distinct members)
    (names : List String) :
    fields? names (Json.object members).normal
      = some ((names.map fun name => members.lookup name).map (Option.map normal)) := by
  rw [normal, fields?_object (distinct_sortMembers _), List.map_map]
  congr 1
  apply List.map_congr_left
  intro name _
  rw [lookup_sortMembers (distinct_normalMembers distinct), lookup_normalMembers]
  rfl

end Json

namespace Mesh
open Json

theorem floatsToJson_normal (xs : List Float32) : (floatsToJson xs).normal = floatsToJson xs := by
  rw [floatsToJson, normal, normalItems_eq_map, List.map_map]
  congr 1
  apply List.map_congr_left
  intro x _
  exact normal_ofFloat32 x

theorem lookup_optionalMember (key k : String) (value : Option Json) :
    (optionalMember key value).lookup k = if k = key then value else none := by
  cases value with
  | none => simp [optionalMember]
  | some j => exact lookup_cons_ite ..

theorem keys_optionalMember (key : String) (value : Option Json) :
    ((optionalMember key value).map (·.1)).Sublist [key] := by
  cases value with
  | none => exact List.nil_sublist _
  | some j => exact List.Sublist.refl _

def indicesToJson (indices : List UInt32) : Json := .array (indices.map fun i => .ofNat i.toNat)

def members (m : Mesh) : List (String × Json) :=
  [("positions", floatsToJson m.positions)]
    ++ optionalMember "normals" (m.normals.map floatsToJson)
    ++ optionalMember "uvs" (m.uvs.map floatsToJson)
    ++ optionalMember "colors" (m.colors.map floatsToJson)
    ++ optionalMember "tangents" (m.tangents.map floatsToJson)
    ++ optionalMember "indices" (m.indices.map indicesToJson)
    ++ [("id", .ofNat m.id.toNat)]

theorem toJson_eq (m : Mesh) : m.toJson = .object m.members := rfl

theorem distinct_members (m : Mesh) : Distinct m.members := by
  have sub : (m.members.map (·.1)).Sublist fieldNames := by
    simp only [members, List.map_append]
    have first : ["positions"].Sublist ["positions"] := List.Sublist.refl _
    exact (((((first.append (keys_optionalMember "normals" _)).append
      (keys_optionalMember "uvs" _)).append (keys_optionalMember "colors" _)).append
      (keys_optionalMember "tangents" _)).append (keys_optionalMember "indices" _)).append
      (List.Sublist.refl ["id"])
  exact sub.nodup (by decide)

theorem lookups_members (m : Mesh) :
    (fieldNames.map fun name => m.members.lookup name) =
      [some (floatsToJson m.positions), m.normals.map floatsToJson, m.uvs.map floatsToJson,
        m.colors.map floatsToJson, m.tangents.map floatsToJson, m.indices.map indicesToJson,
        some (.ofNat m.id.toNat)] := by
  simp [fieldNames, members, List.lookup_append, lookup_optionalMember, List.lookup_cons]

theorem list?_floatsToJson {xs : List Float32} (finite : AllFinite xs) :
    list? float32? (floatsToJson xs).normal = some xs := by
  rw [floatsToJson_normal]
  exact list?_floats finite

theorem optional_floatsToJson {xs : Option (List Float32)} (finite : AllFinite (xs.getD [])) :
    optional (list? float32?) ((xs.map floatsToJson).map normal) = some xs := by
  cases xs with
  | none => rfl
  | some xs => exact congrArg (Option.map some) (list?_floatsToJson finite)

theorem uint32?_ofNat (i : UInt32) : (Json.ofNat i.toNat).uint32? = some i := by
  have bound : i.toNat < 4294967296 := i.toNat_lt
  rw [uint32?, Json.ofNat, natUpTo?, if_pos (by omega)]
  simp

theorem optional_indicesToJson (indices : Option (List UInt32)) :
    optional (list? uint32?) ((indices.map indicesToJson).map normal) = some indices := by
  cases indices with
  | none => rfl
  | some indices =>
    have read : list? uint32? (indicesToJson indices).normal = some indices := by
      rw [indicesToJson, normal, normalItems_eq_map, List.map_map]
      exact mapM_map_eq_some fun i _ => uint32?_ofNat i
    exact congrArg (Option.map some) read

theorem fields?_toJson (m : Mesh) :
    fields? fieldNames m.toJson.normal = some [some (floatsToJson m.positions).normal,
      (m.normals.map floatsToJson).map normal, (m.uvs.map floatsToJson).map normal,
      (m.colors.map floatsToJson).map normal, (m.tangents.map floatsToJson).map normal,
      (m.indices.map indicesToJson).map normal, some (.ofNat m.id.toNat)] := by
  rw [toJson_eq, fields?_normal m.distinct_members, lookups_members]
  rfl

theorem ofJson?_normal {m : Mesh} (finite : AllFinite m.floats) :
    ofJson? m.toJson.normal = some m := by
  simp only [floats, AllFinite, List.mem_append] at finite
  have positions : AllFinite m.positions := fun x hx => finite x (.inl (.inl (.inl (.inl hx))))
  have normals : AllFinite (m.normals.getD []) :=
    fun x hx => finite x (.inl (.inl (.inl (.inr hx))))
  have uvs : AllFinite (m.uvs.getD []) := fun x hx => finite x (.inl (.inl (.inr hx)))
  have colors : AllFinite (m.colors.getD []) := fun x hx => finite x (.inl (.inr hx))
  have tangents : AllFinite (m.tangents.getD []) := fun x hx => finite x (.inr hx)
  rw [ofJson?, fields?_toJson]
  simp only [Option.bind_eq_bind, Option.bind_some, orElse, list?_floatsToJson positions,
    optional_floatsToJson normals, optional_floatsToJson uvs, optional_floatsToJson colors,
    optional_floatsToJson tangents, optional_indicesToJson, uint32?_ofNat]
  rfl

end Mesh

open Json

namespace Value

theorem isMeta_of_kind? {v : Value} {kind : Kind} (h : v.kind? = some kind) :
    kind.isMeta = false := by
  cases v <;> cases h <;> rfl

theorem kind?_of_ofComponents? {k : Kind} {xs : List Float32} {v : Value}
    (h : ofComponents? k xs = some v) : v.kind? = some k := by
  cases k <;> cases h <;> rfl

theorem kind?_of_ofJson? {k : Kind} {j : Json} {v : Value} (h : ofJson? k j = some v) :
    v = .null ∨ v.kind? = some k := by
  rw [ofJson?] at h
  split at h
  · cases h
    exact .inl rfl
  · obtain ⟨xs, -, h⟩ := Option.bind_eq_some_iff.1 h
    right
    split at h
    · obtain ⟨x, -, rfl⟩ := Option.map_eq_some_iff.1 h
      rfl
    · obtain ⟨m, -, rfl⟩ := Option.map_eq_some_iff.1 h
      rfl
    · split at h
      · exact kind?_of_ofComponents? h
      · cases h

theorem kind?_of_coerce? {k : Kind} {v w : Value} (h : v.coerce? k = some w) :
    k.isMeta = true ∨ w.kind? = some k := by
  by_cases unknown : k.isMeta = true
  · exact .inl unknown
  · right
    cases v with
    | null => cases h
    | int i | float x =>
      simp only [coerce?, unknown, Bool.false_eq_true, false_or] at h
      split at h
      · rename_i same
        cases h
        rw [same]
        rfl
      · exact kind?_of_ofComponents? h
    | vector2 u | vector3 u | vector4 u =>
      simp only [coerce?, unknown, Bool.false_eq_true, if_false] at h
      split at h
      · exact kind?_of_ofComponents? h
      · cases h
    | matrix m | geometry m =>
      simp only [coerce?, unknown, Bool.false_eq_true, false_or] at h
      split at h
      · rename_i same
        cases h
        rw [same]
        rfl
      · cases h

end Value

theorem Block.inputSettings_eq_ok_iff (j : Json) (b : Block) :
    inputSettings j = .ok b ↔ ∃ kind v source,
      optional (name? ContextualSource.table) (j.get? "contextualValue") = some source ∧
      orElse ((source.map ContextualSource.kind).getD .float) (name? Kind.table) (j.get? "kind")
        = some kind ∧
      orElse .null (Value.ofJson? kind) (j.get? "value") = some v ∧
      b = .input ⟨kind, v, source⟩ := by
  constructor
  · intro h
    rw [inputSettings] at h
    cases hs : optional (name? ContextualSource.table) (j.get? "contextualValue") with
    | none => simp [hs, bind, Except.bind] at h
    | some source =>
      cases hk : orElse ((source.map ContextualSource.kind).getD .float) (name? Kind.table)
          (j.get? "kind") with
      | none => simp [hs, hk, bind, Except.bind] at h
      | some kind =>
        simp only [hs, hk, bind, Except.bind] at h
        cases hj : j.get? "value" with
        | none =>
          simp only [hj] at h
          cases h
          exact ⟨kind, .null, source, rfl, hk, rfl, rfl⟩
        | some literal =>
          simp only [hj] at h
          cases hv : Value.ofJson? kind literal with
          | none => simp [hv] at h
          | some v =>
            simp only [hv] at h
            cases h
            exact ⟨kind, v, source, rfl, hk, hv, rfl⟩
  · rintro ⟨kind, v, source, hs, hk, hv, rfl⟩
    rw [inputSettings]
    simp only [hs, hk, bind, Except.bind]
    cases hj : j.get? "value" with
    | none =>
      rw [hj] at hv
      cases hv
      rfl
    | some literal =>
      rw [hj, orElse] at hv
      simp only [hv]
      rfl

/-- The input blocks that can be made: from a value or a source, by reading settings, and by
putting in another value. -/
inductive InputBlock.Made : InputBlock → Prop where
  | ofValue (v : Value) : Made (.ofValue v)
  | ofSource (s : ContextualSource) : Made (.ofSource s)
  | read {j : Json} {settings : InputBlock} :
    Block.inputSettings j = .ok (.input settings) → Made settings
  | withValue {settings : InputBlock} (v : Value) : Made settings → Made (settings.withValue v)

theorem InputBlock.value_of_inputSettings {j : Json} {settings : InputBlock}
    (h : Block.inputSettings j = .ok (.input settings)) :
    settings.value = .null ∨ settings.value.kind? = some settings.kind := by
  obtain ⟨kind, v, source, -, -, value, same⟩ := (Block.inputSettings_eq_ok_iff ..).1 h
  cases same
  cases found : j.get? "value" with
  | none =>
    rw [found] at value
    cases value
    exact .inl rfl
  | some literal =>
    rw [found] at value
    exact Value.kind?_of_ofJson? value

theorem InputBlock.Made.value_kind {settings : InputBlock} (h : settings.Made) :
    settings.value = .null ∨ settings.kind.isMeta = true ∨
      settings.value.kind? = some settings.kind := by
  induction h with
  | ofValue v => cases v <;> first | exact .inl rfl | exact .inr (.inr rfl)
  | ofSource s => exact .inl rfl
  | read done => exact (value_of_inputSettings done).imp_right .inr
  | @withValue settings v _ _ =>
    rw [InputBlock.withValue]
    cases adapted : v.coerce? settings.kind with
    | none => exact .inl rfl
    | some w => exact .inr (Value.kind?_of_coerce? adapted)

namespace Block

def inputMembers (settings : InputBlock) : List (String × Json) :=
  (settings.source.toList.map fun s => ("contextualValue", .string s.name))
    ++ [("kind", .string settings.kind.name), ("value", settings.value.toJson)]

theorem inputProperties_eq (settings : InputBlock) :
    inputProperties settings = .object (inputMembers settings) := rfl

theorem get?_inputProperties (settings : InputBlock) :
    (inputProperties settings).get? "contextualValue"
        = settings.source.map (fun s => .string s.name) ∧
      (inputProperties settings).get? "kind" = some (.string settings.kind.name) ∧
      (inputProperties settings).get? "value" = some settings.value.toJson := by
  have distinct : Distinct (inputMembers settings) := by
    rw [Distinct, inputMembers]
    cases settings.source <;> simp
  rw [inputProperties_eq, get?_object distinct, get?_object distinct, get?_object distinct,
    inputMembers]
  cases settings.source <;> simp [List.lookup_cons]

theorem inputSettings_inputProperties (settings : InputBlock) :
    inputSettings (inputProperties settings) =
      match Value.ofJson? settings.kind settings.value.toJson with
      | some v => .ok (.input { settings with value := v })
      | none => .error (.notALiteral settings.value.toJson settings.kind) := by
  obtain ⟨source, kind, value⟩ := get?_inputProperties settings
  have sourceBack : optional (name? ContextualSource.table)
      (settings.source.map fun s => .string s.name) = some settings.source := by
    cases settings.source with
    | none => rfl
    | some s => exact congrArg (Option.map some) s.lookup_name
  have kindBack : name? Kind.table (.string settings.kind.name) = some settings.kind :=
    settings.kind.lookup_name
  rw [inputSettings]
  simp only [source, kind, value, sourceBack, orElse, kindBack, bind, Except.bind]
  cases Value.ofJson? settings.kind settings.value.toJson <;> rfl

def floats : Block → List Float32
  | pointList points => points.flatMap Space.Vec3.toList
  | mesh data _ => (data.map Mesh.floats).getD []
  | input settings => settings.value.floats
  | _ => []

/-- The standard blocks that can be made: input blocks come from their own making, and all others
may have any settings. -/
def Made : Block → Prop
  | input settings => settings.Made
  | custom _ => False
  | _ => True

theorem Made.isStandard {b : Block} (h : b.Made) : b.IsStandard := by
  cases b <;> first | exact h.elim | trivial

/-- An input block that does not know its kind holds nothing. -/
def IsTyped : Block → Prop
  | input settings => settings.kind.isMeta = true → settings.value = .null
  | _ => True

def HoldsNoGeometry : Block → Prop
  | input settings => ∀ m, settings.value ≠ .geometry m
  | _ => True

theorem isWritten_of_ne_null {settings : InputBlock}
    (noGeometry : (input settings).HoldsNoGeometry) (notNull : settings.value ≠ .null) :
    settings.value.IsWritten := by
  cases hv : settings.value with
  | null => exact absurd hv notNull
  | geometry m => exact absurd hv (noGeometry m)
  | _ => trivial

theorem inputSettings_of_isTyped {settings : InputBlock} (made : settings.Made)
    (finite : AllFinite settings.value.floats) (noGeometry : (input settings).HoldsNoGeometry)
    (typed : (input settings).IsTyped) :
    inputSettings (inputProperties settings) = .ok (.input settings) := by
  have read : Value.ofJson? settings.kind settings.value.toJson = some settings.value := by
    by_cases null : settings.value = .null
    · rw [null]
      rfl
    · rcases made.value_kind with same | unknown | kind
      · exact absurd same null
      · exact absurd (typed unknown) null
      · exact Value.ofJson?_toJson kind (isWritten_of_ne_null noGeometry null) finite
  rw [inputSettings_inputProperties, read]

theorem inputSettings_of_not_isTyped {settings : InputBlock}
    (finite : AllFinite settings.value.floats) (noGeometry : (input settings).HoldsNoGeometry)
    (untyped : ¬ (input settings).IsTyped) :
    inputSettings (inputProperties settings)
      = .error (.notALiteral settings.value.toJson settings.kind) := by
  obtain ⟨unknown, notNull⟩ := Classical.not_imp.1 untyped
  have written := isWritten_of_ne_null noGeometry notNull
  rw [inputSettings_inputProperties,
    Value.ofJson?_of_isMeta unknown (Value.isNull_toJson written finite)]

theorem oneSetting?_object {α : Type} (name : String) (usual : α) (read : Json → Option α)
    (j : Json) : oneSetting? name usual read (.object [(name, j)]) = read j := by
  have distinct : Distinct [(name, j)] := List.nodup_singleton _
  rw [oneSetting?, fields?_object distinct]
  simp [orElse]

theorem everyRead?_setting (usual everyRead : Bool) :
    everyRead? usual (everyReadSetting everyRead) = some everyRead :=
  oneSetting?_object ..

theorem vec3?_vec3ToJson {v : Space.Vec3} (finite : AllFinite v.toList) :
    (vec3ToJson v).vec3? = some v := by
  rw [vec3?, vec3ToJson, floatsToJson, list?_floats finite]
  rfl

theorem list?_points {points : List Space.Vec3}
    (finite : AllFinite (points.flatMap Space.Vec3.toList)) :
    list? vec3? (.array (points.map vec3ToJson)) = some points := by
  apply mapM_map_eq_some
  intro v hv
  exact vec3?_vec3ToJson fun x hx => finite x (List.mem_flatMap.2 ⟨v, hv, hx⟩)

theorem optional_meshToJson {data : Option Mesh}
    (finite : AllFinite ((data.map Mesh.floats).getD [])) :
    optional Mesh.ofJson? (some ((data.map Mesh.toJson).getD .null).normal) = some data := by
  cases data with
  | none => rfl
  | some m => exact congrArg (Option.map some) (Mesh.ofJson?_normal finite)

theorem fields?_pair {a b : String} (different : a ≠ b) (x y : Json) :
    fields? [a, b] (.object [(a, x), (b, y)]) = some [some x, some y] := by
  have distinct : Distinct [(a, x), (b, y)] := by simp [Distinct, different]
  rw [fields?_object distinct]
  simp [lookup_cons_ite, different.symm]

theorem meshSettings?_properties (data : Option Mesh) (reverseWinding : Bool) :
    meshSettings? (mesh data reverseWinding).properties =
      (optional Mesh.ofJson? (some ((data.map Mesh.toJson).getD .null).normal)).map
        fun data => mesh data reverseWinding := by
  have distinct : Distinct [("reverseWindingOrder", Json.bool reverseWinding),
      ("vertexData", ((data.map Mesh.toJson).getD .null).normal)] := by simp [Distinct]
  have fields : fields? ["vertexData", "reverseWindingOrder"]
      (mesh data reverseWinding).properties =
        some [some ((data.map Mesh.toJson).getD .null).normal, some (.bool reverseWinding)] := by
    rw [properties, fields?_object distinct]
    simp [lookup_cons_ite]
  rw [meshSettings?, fields]
  simp only [Option.bind_eq_bind, Option.bind_some]
  cases optional Mesh.ofJson? (some ((data.map Mesh.toJson).getD .null).normal) <;> rfl

theorem verticesSettings?_properties (everyRead removeDuplicates : Bool) :
    verticesSettings? (instantiateOnVertices everyRead removeDuplicates).properties
      = some (instantiateOnVertices everyRead removeDuplicates) := by
  rw [verticesSettings?, properties, fields?_pair (by decide)]
  rfl

theorem volumeSettings?_properties (everyRead : Bool) (maxAttempts : UInt32) :
    volumeSettings? (instantiateOnVolume everyRead maxAttempts).properties
      = some (instantiateOnVolume everyRead maxAttempts) := by
  rw [volumeSettings?, properties, fields?_pair (by decide)]
  simp [orElse, bool?, Mesh.uint32?_ofNat]

theorem ofSettings?_properties {b : Block} (standard : b.IsStandard)
    (notInput : ∀ settings, b ≠ input settings) (finite : AllFinite b.floats) :
    b.usual.ofSettings? b.properties = some b := by
  cases b with
  | custom _ => exact standard.elim
  | input settings => exact absurd rfl (notInput settings)
  | pointList points =>
    rw [usual, ofSettings?, properties, oneSetting?_object, list?_points finite]
    rfl
  | mesh data reverseWinding =>
    rw [usual, ofSettings?, meshSettings?_properties, optional_meshToJson finite]
    rfl
  | math operation =>
    rw [usual, ofSettings?, properties, oneSetting?_object, name?, operation.lookup_name]
    rfl
  | random lock =>
    rw [usual, ofSettings?, properties, oneSetting?_object, name?, lock.lookup_name]
    rfl
  | rotation axis =>
    rw [usual, ofSettings?, properties, oneSetting?_object, name?, axis.lookup_name]
    rfl
  | instantiateOnVertices everyRead removeDuplicates =>
    exact verticesSettings?_properties everyRead removeDuplicates
  | instantiateOnVolume everyRead maxAttempts =>
    exact volumeSettings?_properties everyRead maxAttempts
  | output | vectorConverter | shift | scaling | matrixCompose | info => rfl
  | _ =>
    rw [usual, ofSettings?, properties, everyRead?_setting]
    rfl

theorem properties_eq_object {b : Block} (standard : b.IsStandard) :
    ∃ members, b.properties = .object members := by
  cases b <;> first | exact standard.elim | exact ⟨_, rfl⟩

theorem isNull_properties {b : Block} (standard : b.IsStandard) : b.properties.isNull = false := by
  obtain ⟨members, object⟩ := properties_eq_object standard
  rw [object]
  rfl

theorem usual_ne_input {b : Block} (notInput : ∀ settings, b ≠ input settings)
    (settings : InputBlock) : b.usual ≠ input settings := by
  cases b with
  | input settings => exact absurd rfl (notInput settings)
  | _ => simp [usual]

theorem withProperties_usual {b : Block} (notInput : ∀ settings, b ≠ input settings)
    (j : Json) : b.usual.withProperties j =
      match b.usual.ofSettings? (if j.isNull then .object [] else j) with
      | some made => .ok made
      | none => .error .malformed := by
  unfold withProperties
  split
  · rename_i settings same
    exact absurd same (usual_ne_input notInput settings)
  · rfl

theorem usual_withProperties {b : Block} (made : b.Made) (finite : AllFinite b.floats)
    (noGeometry : b.HoldsNoGeometry) (typed : b.IsTyped) :
    b.usual.withProperties b.properties = .ok b := by
  obtain ⟨settings, rfl⟩ | notInput := exists_or_forall_not (b = .input ·)
  · exact inputSettings_of_isTyped made finite noGeometry typed
  · have read := ofSettings?_properties made.isStandard notInput finite
    rw [withProperties_usual notInput, isNull_properties made.isStandard]
    simp only [Bool.false_eq_true, if_false, read]

end Block

namespace Registry

theorem lookup_map_of_mem {α β : Type} {key : α → String} (value : α → β) {xs : List α}
    (distinct : (xs.map key).Nodup) {x : α} (mem : x ∈ xs) :
    (xs.map fun x => (key x, value x)).lookup (key x) = some (value x) := by
  induction xs with
  | nil => cases mem
  | cons first rest ih =>
    obtain ⟨fresh, others⟩ := List.nodup_cons.1 distinct
    rw [List.map_cons, List.lookup_cons]
    rcases List.mem_cons.1 mem with rfl | mem
    · simp
    · have different : key x ≠ key first := fun same => fresh (same ▸ List.mem_map_of_mem mem)
      rw [beq_false_of_ne different]
      exact ih others mem

theorem create_standard {b : Block} (h : b.IsStandard) (j : Json) :
    standard.create b.className j = (b.usual.withProperties j).mapError .properties := by
  have found := lookup_map_of_mem factoryOf Block.nodup_className (Block.usual_mem h)
  rw [Block.className_usual] at found
  rw [create, standard, found]
  rfl

end Registry
end MeshFlow
