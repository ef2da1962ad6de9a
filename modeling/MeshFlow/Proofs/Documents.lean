import MeshFlow.Proofs.Reopening

set_option autoImplicit false

/-!
# Documents that are read back

A saved graph is written as one tree, with the settings of a block among the fields that every block
has. Reading tells them apart by their keys alone, leaves out what is null and brings every object
into the order of its keys. So the same saved graph comes back just when no setting has the key of a
field and no input is given null as its literal: every setting is among the settings again, whether
or not the block knows it, and nothing else is.
-/
namespace MeshFlow

theorem mapM_map_eq_some_iff {α β γ : Type} {write : α → β} {read : β → Option γ} {f : α → γ}
    (xs : List α) :
    (xs.map write).mapM read = some (xs.map f) ↔ ∀ x ∈ xs, read (write x) = some (f x) := by
  induction xs with
  | nil => exact iff_of_true rfl (List.forall_mem_nil _)
  | cons x rest ih =>
    rw [List.forall_mem_cons, ← ih, List.map_cons, List.mapM_cons]
    cases read (write x) <;> cases (rest.map write).mapM read <;> simp

namespace Json

mutual

/-- Every object of the tree lists its members by rising key. -/
def Sorted : Json → Prop
  | array items => SortedItems items
  | object members => members.Pairwise (fun a b => a.1 < b.1) ∧ SortedMembers members
  | _ => True

def SortedItems : List Json → Prop
  | [] => True
  | item :: rest => item.Sorted ∧ SortedItems rest

def SortedMembers : List (String × Json) → Prop
  | [] => True
  | (_, value) :: rest => value.Sorted ∧ SortedMembers rest

end

theorem insertMember_last {members : List (String × Json)} {key : String}
    (above : ∀ m ∈ members, m.1 < key) (value : Json) :
    insertMember key value members = members ++ [(key, value)] := by
  induction members with
  | nil => rfl
  | cons m rest ih =>
    have first := above m (List.mem_cons_self ..)
    rw [insertMember, if_neg (lt_asymm first), if_neg (ne_of_gt first),
      ih fun m mem => above m (List.mem_cons_of_mem _ mem), List.cons_append]

theorem sortMembers_of_sorted {members : List (String × Json)}
    (sorted : members.Pairwise fun a b => a.1 < b.1) : sortMembers members = members := by
  have folded : ∀ {done rest : List (String × Json)},
      (done ++ rest).Pairwise (fun a b => a.1 < b.1) →
      rest.foldl (fun sorted m => insertMember m.1 m.2 sorted) done = done ++ rest := by
    intro done rest
    induction rest generalizing done with
    | nil => exact fun _ => (List.append_nil _).symm
    | cons m rest ih =>
      intro sorted
      have above : ∀ x ∈ done, x.1 < m.1 := fun x mem =>
        (List.pairwise_append.1 sorted).2.2 x mem m (List.mem_cons_self ..)
      rw [List.foldl_cons, insertMember_last above, ih (by simpa using sorted), List.append_assoc]
      rfl
  exact @folded [] members sorted

mutual

theorem normal_of_sorted : (j : Json) → j.Sorted → j.normal = j
  | array items, h => by rw [normal, normalItems_of_sorted items h]
  | object members, h => by
    rw [normal, normalMembers_of_sorted members h.2, sortMembers_of_sorted h.1]
  | null, _ | bool _, _ | number _, _ | string _, _ => rfl

theorem normalItems_of_sorted : (items : List Json) → SortedItems items → normalItems items = items
  | [], _ => rfl
  | item :: rest, h => by
    rw [normalItems, normal_of_sorted item h.1, normalItems_of_sorted rest h.2]

theorem normalMembers_of_sorted :
    (members : List (String × Json)) → SortedMembers members → normalMembers members = members
  | [], _ => rfl
  | (key, value) :: rest, h => by
    rw [normalMembers, normal_of_sorted value h.1, normalMembers_of_sorted rest h.2]

end

theorem lookup_sortMembers_normal {members : List (String × Json)} (distinct : Distinct members)
    (key : String) :
    (sortMembers (normalMembers members)).lookup key = (members.lookup key).map normal := by
  rw [lookup_sortMembers (distinct_normalMembers distinct), lookup_normalMembers]

end Json

open Json

def SavedInput.normal (i : SavedInput) : SavedInput := { i with value := i.value.map Json.normal }

def SavedBlock.normal (b : SavedBlock) : SavedBlock :=
  { b with
    inputs := b.inputs.map SavedInput.normal
    properties := sortMembers (normalMembers b.properties) }

def SavedGraph.normal (g : SavedGraph) : SavedGraph := { g with blocks := g.blocks.map .normal }

structure SavedBlock.Sorted (b : SavedBlock) : Prop where
  properties : (Json.object b.properties).Sorted
  literals : ∀ i ∈ b.inputs, ∀ j, i.value = some j → j.Sorted

def SavedGraph.Sorted (g : SavedGraph) : Prop := ∀ b ∈ g.blocks, b.Sorted

theorem SavedBlock.Sorted.normal_eq {b : SavedBlock} (h : b.Sorted) : b.normal = b := by
  have inputs : b.inputs.map SavedInput.normal = b.inputs := by
    refine (List.map_congr_left fun i mem => ?_).trans (List.map_id _)
    have literal : i.value.map Json.normal = i.value := by
      cases value : i.value with
      | none => rfl
      | some j => exact congrArg some (normal_of_sorted j (h.literals i mem j value))
    rw [SavedInput.normal, literal]
    rfl
  rw [SavedBlock.normal, inputs, normalMembers_of_sorted _ h.properties.2,
    sortMembers_of_sorted h.properties.1]

theorem SavedGraph.Sorted.normal_eq {g : SavedGraph} (h : g.Sorted) : g.normal = g := by
  have blocks : g.blocks.map SavedBlock.normal = g.blocks :=
    (List.map_congr_left fun b mem => (h b mem).normal_eq).trans (List.map_id _)
  rw [SavedGraph.normal, blocks]

/-- What keeps the fields of a block apart from its settings, and a literal from none. -/
structure SavedBlock.Separable (b : SavedBlock) : Prop where
  unreserved : ∀ m ∈ b.properties, m.1 ∉ SavedBlock.fieldNames
  given : ∀ i ∈ b.inputs, i.value ≠ some .null

def SavedGraph.Separable (g : SavedGraph) : Prop := ∀ b ∈ g.blocks, b.Separable

theorem uint32?_idToJson (id : BlockId) : (idToJson id).uint32? = some id := Mesh.uint32?_ofNat id

namespace SavedInput

theorem ofJson?_toJson (i : SavedInput) :
    ofJson? i.toJson
      = some { i.normal with value := (i.value.filter (!·.isNull)).map .normal } := by
  have distinct : Distinct (("name", .string i.name) :: i.value.toList.map ("value", ·)) := by
    cases i.value <;> simp [Distinct]
  have fields : i.toJson.fields? fieldNames = some [some (.string i.name), i.value] := by
    rw [toJson, fields?_object distinct]
    cases i.value <;> simp [fieldNames, lookup_cons_ite]
  rw [ofJson?, fields]
  cases i.value with
  | none => rfl
  | some j => cases j <;> rfl

theorem ofJson?_eq_normal_iff (i : SavedInput) :
    ofJson? i.toJson = some i.normal ↔ i.value ≠ some .null := by
  rw [ofJson?_toJson, Option.some.injEq]
  cases value : i.value with
  | none => simp [normal, value]
  | some j => cases j <;> simp [normal, value, isNull, Json.normal]

end SavedInput

theorem SavedOutput.ofJson?_toJson (o : SavedOutput) : ofJson? o.toJson = some o := rfl

theorem SavedConnection.ofJson?_toJson (c : SavedConnection) : ofJson? c.toJson = some c := by
  have fields : c.toJson.fields? fieldNames = some [some (idToJson c.outputBlock),
      some (.string c.outputSocket), some (idToJson c.inputBlock), some (.string c.inputSocket)] :=
    rfl
  rw [ofJson?, fields]
  simp only [Option.bind_eq_bind, Option.bind_some, required, uint32?_idToJson]
  rfl

namespace SavedBlock

def fixedMembers (b : SavedBlock) : List (String × Json) :=
  [("className", .string b.className), ("id", idToJson b.id), ("name", .string b.name),
    ("inputs", .array (b.inputs.map SavedInput.toJson)),
    ("outputs", .array (b.outputs.map SavedOutput.toJson))]

theorem toJson_eq (b : SavedBlock) : b.toJson = .object (b.fixedMembers ++ b.properties) := rfl

theorem keys_fixedMembers (b : SavedBlock) : b.fixedMembers.map (·.1) = fieldNames := rfl

theorem settingsOf_members {b : SavedBlock} (unreserved : ∀ m ∈ b.properties, m.1 ∉ fieldNames) :
    settingsOf (b.fixedMembers ++ b.properties) = sortMembers (normalMembers b.properties) := by
  have fixed : b.fixedMembers.filter (fun m => !fieldNames.contains m.1) = [] := by
    rw [List.filter_eq_nil_iff]
    intro m mem
    have field : m.1 ∈ fieldNames := b.keys_fixedMembers ▸ List.mem_map_of_mem mem
    simpa using field
  have settings : b.properties.filter (fun m => !fieldNames.contains m.1) = b.properties :=
    List.filter_eq_self.2 fun m mem => by simpa using unreserved m mem
  rw [settingsOf, List.filter_append, fixed, settings, List.nil_append]

theorem fields?_toJson {b : SavedBlock} (unreserved : ∀ m ∈ b.properties, m.1 ∉ fieldNames) :
    b.toJson.fields? fieldNames = some (b.fixedMembers.map fun m => some m.2) := by
  have none_named : ∀ name ∈ fieldNames, b.properties.filter (·.1 == name) = [] := by
    intro name field
    rw [List.filter_eq_nil_iff]
    intro m mem same
    exact unreserved m mem (beq_iff_eq.1 same ▸ field)
  have distinct : Distinct b.fixedMembers := by rw [Distinct, keys_fixedMembers]; decide
  have alone : (Json.object (b.fixedMembers ++ b.properties)).fields? fieldNames
      = (Json.object b.fixedMembers).fields? fieldNames := by
    refine fields?_congr fun name field => ?_
    rw [List.filter_append, none_named name field, List.append_nil]
  rw [toJson_eq, alone, fields?_object distinct]
  rfl

theorem ofJson?_of_reserved {b : SavedBlock} {m : String × Json} (mem : m ∈ b.properties)
    (reserved : m.1 ∈ fieldNames) : ofJson? b.toJson = none := by
  have fields : (Json.object (b.fixedMembers ++ b.properties)).fields? fieldNames = none := by
    obtain ⟨field, first, same⟩ := List.mem_map.1 (b.keys_fixedMembers ▸ reserved)
    have here : field ∈ b.fixedMembers.filter (·.1 == m.1) :=
      List.mem_filter.2 ⟨first, beq_iff_eq.2 same⟩
    have again : m ∈ b.properties.filter (·.1 == m.1) :=
      List.mem_filter.2 ⟨mem, beq_self_eq_true _⟩
    obtain ⟨_, before, eq⟩ := List.exists_cons_of_ne_nil (List.ne_nil_of_mem here)
    obtain ⟨_, after, eq'⟩ := List.exists_cons_of_ne_nil (List.ne_nil_of_mem again)
    refine mapM_eq_none reserved ?_
    rw [List.filter_append, eq, eq']
    cases before <;> rfl
  rw [toJson_eq]
  rw [ofJson?, fields]
  rfl

theorem ofJson?_toJson {b : SavedBlock} (unreserved : ∀ m ∈ b.properties, m.1 ∉ fieldNames) :
    ofJson? b.toJson = ((b.inputs.map SavedInput.toJson).mapM SavedInput.ofJson?).map
      fun inputs => { b.normal with inputs } := by
  have fields := fields?_toJson unreserved
  rw [toJson_eq] at fields ⊢
  have outputs : (b.outputs.map SavedOutput.toJson).mapM SavedOutput.ofJson? = some b.outputs :=
    mapM_map_eq_some fun o _ => o.ofJson?_toJson
  rw [ofJson?, fields, settingsOf_members unreserved]
  simp only [fixedMembers, List.map_cons, List.map_nil, Option.bind_eq_bind, Option.bind_some,
    required, string?, uint32?_idToJson, orElse, list?, outputs]
  cases (b.inputs.map SavedInput.toJson).mapM SavedInput.ofJson? <;> rfl

theorem ofJson?_eq_normal_iff (b : SavedBlock) :
    ofJson? b.toJson = some b.normal ↔ b.Separable := by
  by_cases unreserved : ∀ m ∈ b.properties, m.1 ∉ fieldNames
  · have read : ofJson? b.toJson = some b.normal ↔
        (b.inputs.map SavedInput.toJson).mapM SavedInput.ofJson?
          = some (b.inputs.map SavedInput.normal) := by
      rw [ofJson?_toJson unreserved, Option.map_eq_some_iff]
      constructor
      · rintro ⟨inputs, done, same⟩
        rw [done]
        exact congrArg (some ∘ SavedBlock.inputs) same
      · exact fun done => ⟨_, done, rfl⟩
    rw [read, mapM_map_eq_some_iff]
    simp only [SavedInput.ofJson?_eq_normal_iff]
    exact ⟨fun given => ⟨unreserved, given⟩, Separable.given⟩
  · have different : ¬ b.Separable := fun separable => unreserved separable.unreserved
    simp only [not_forall, not_not] at unreserved
    obtain ⟨m, mem, reserved⟩ := unreserved
    rw [ofJson?_of_reserved mem reserved]
    exact iff_of_false (Option.some_ne_none _).symm different

end SavedBlock

namespace SavedGraph

theorem ofJson?_toJson (g : SavedGraph) : ofJson? g.toJson
    = ((g.blocks.map SavedBlock.toJson).mapM SavedBlock.ofJson?).map
      fun blocks => { g with blocks } := by
  let members := g.output.toList.map (fun id => ("outputNodeId", idToJson id))
    ++ [("blocks", .array (g.blocks.map SavedBlock.toJson)),
      ("connections", .array (g.connections.map SavedConnection.toJson))]
  have distinct : Distinct members := by cases h : g.output <;> simp [Distinct, members, h]
  have fields : g.toJson.fields? fieldNames = some [g.output.map idToJson,
      some (.array (g.blocks.map SavedBlock.toJson)),
      some (.array (g.connections.map SavedConnection.toJson))] := by
    change (Json.object members).fields? fieldNames = _
    rw [fields?_object distinct]
    cases h : g.output <;> simp [fieldNames, members, lookup_cons_ite, h]
  have output : optional uint32? (g.output.map idToJson) = some g.output := by
    cases g.output with
    | none => rfl
    | some id => exact congrArg (Option.map some) (uint32?_idToJson id)
  have connections : (g.connections.map SavedConnection.toJson).mapM SavedConnection.ofJson?
      = some g.connections := mapM_map_eq_some fun c _ => c.ofJson?_toJson
  rw [ofJson?, fields]
  simp only [Option.bind_eq_bind, Option.bind_some, output, orElse, list?, connections]
  cases (g.blocks.map SavedBlock.toJson).mapM SavedBlock.ofJson? <;> rfl

/-- The tree that a saved graph is written as is read back as the same saved graph, up to the order
of keys, just when no setting has the key of a field and no literal is null. Every key among the
settings of a block then has its value again, and no other key has any. A saved graph whose objects
all are in the order of their keys comes back as it is. -/
theorem reads_back_iff (g : SavedGraph) :
    (ofJson? g.toJson = some g.normal ↔ g.Separable) ∧
    (∀ b ∈ g.blocks, Distinct b.properties → ∀ key,
      b.normal.properties.lookup key = (b.properties.lookup key).map Json.normal) ∧
    (g.Sorted → g.normal = g) := by
  refine ⟨?_, fun b _ distinct key => lookup_sortMembers_normal distinct key, Sorted.normal_eq⟩
  have read : ofJson? g.toJson = some g.normal ↔
      (g.blocks.map SavedBlock.toJson).mapM SavedBlock.ofJson?
        = some (g.blocks.map SavedBlock.normal) := by
    rw [ofJson?_toJson, Option.map_eq_some_iff]
    constructor
    · rintro ⟨blocks, done, same⟩
      rw [done]
      exact congrArg (some ∘ SavedGraph.blocks) same
    · exact fun done => ⟨_, done, rfl⟩
  rw [read, mapM_map_eq_some_iff]
  exact forall₂_congr fun b _ => b.ofJson?_eq_normal_iff

/-- A box that carries notes of its own into the output. -/
def annotated : SavedGraph where
  output := some 4
  blocks := [
    { className := "BoxBlock"
      id := 2
      name := "crate"
      inputs := [⟨"width", some (.number (.int 3))⟩, ⟨"height", none⟩]
      outputs := [⟨"geometry"⟩]
      properties := [("evaluateContext", .bool true),
        ("notes", .object [("class", .string "box"), ("tags", .array [.null, .object []])])] },
    { className := "GeometryOutputBlock", id := 4 }]
  connections := [⟨2, "geometry", 4, "geometry"⟩]

theorem sorted_annotated : annotated.Sorted := by
  rintro b (_ | ⟨_, _ | ⟨_, ⟨⟩⟩⟩)
  · refine ⟨⟨by decide +kernel, trivial, ⟨by decide +kernel, trivial, ?_⟩, trivial⟩, ?_⟩
    · exact ⟨⟨trivial, ⟨.nil, trivial⟩, trivial⟩, trivial⟩
    · rintro i (_ | ⟨_, _ | ⟨_, ⟨⟩⟩⟩) j ⟨⟩
      trivial
  · exact ⟨⟨.nil, trivial⟩, nofun⟩

theorem annotated_reads_back :
    annotated.Sorted ∧ annotated.Separable ∧ ofJson? annotated.toJson = some annotated := by
  have separable : annotated.Separable := by
    rintro b (_ | ⟨_, _ | ⟨_, ⟨⟩⟩⟩)
    · exact ⟨by simp [SavedBlock.fieldNames], by simp⟩
    · exact ⟨nofun, nofun⟩
  obtain ⟨back, -, same⟩ := annotated.reads_back_iff
  rw [same sorted_annotated] at back
  exact ⟨sorted_annotated, separable, back.2 separable⟩

end SavedGraph
end MeshFlow
