import MeshFlow.Proofs.Outlines

set_option autoImplicit false

/-!
# Saved graphs of other versions

A saved graph may say more of a block than its class knows: settings, inputs and outputs of later
versions of the class. It may also leave settings out. The first changes nothing, and a setting that
is left out is as good as one that is written with its usual value.
-/
namespace MeshFlow
open Json

def Block.settingNames : Block → List String
  | input _ => ["contextualValue", "kind", "value"]
  | b =>
    match b.properties with
    | .object members => members.map (·.1)
    | _ => []

def Block.declares (b : Block) (i : SavedInput) : Bool := b.inputSpecs.any (·.name == i.name)

namespace SavedBlock

def settingsFor (b : Block) (saved : SavedBlock) : List (String × Json) :=
  saved.properties.filter fun m => b.settingNames.contains m.1

def inputsFor (b : Block) (saved : SavedBlock) : List SavedInput := saved.inputs.filter b.declares

/-- The same block, as far as its class knows. -/
structure Agrees (saved saved' : SavedBlock) : Prop where
  className : saved'.className = saved.className
  id : saved'.id = saved.id
  name : saved'.name = saved.name
  settings : ∀ b ∈ Block.standard, b.className = saved.className →
    saved'.settingsFor b = saved.settingsFor b
  inputs : ∀ b ∈ Block.standard, b.className = saved.className →
    saved'.inputsFor b = saved.inputsFor b

theorem agrees_of_model {saved saved' : SavedBlock} {b : Block} (standard : b ∈ Block.standard)
    (model : b.className = saved.className) (className : saved'.className = saved.className)
    (id : saved'.id = saved.id) (name : saved'.name = saved.name)
    (settings : saved'.settingsFor b = saved.settingsFor b)
    (inputs : saved'.inputsFor b = saved.inputsFor b) : saved.Agrees saved' := by
  have only : ∀ b' ∈ Block.standard, b'.className = saved.className → b' = b := fun b' mem same =>
    List.inj_on_of_nodup_map Block.nodup_className mem standard (same.trans model.symm)
  refine ⟨className, id, name, fun b' mem same => ?_, fun b' mem same => ?_⟩
  · rw [only b' mem same, settings]
  · rw [only b' mem same, inputs]

end SavedBlock

namespace Block

theorem filter_key_of_known {names : List String} {members members' : List (String × Json)}
    (same : members'.filter (fun m => names.contains m.1)
      = members.filter fun m => names.contains m.1) {name : String} (known : name ∈ names) :
    members'.filter (·.1 == name) = members.filter (·.1 == name) := by
  have narrowed (members : List (String × Json)) :
      (members.filter fun m => names.contains m.1).filter (·.1 == name)
        = members.filter (·.1 == name) := by
    rw [List.filter_filter]
    refine List.filter_congr fun m _ => ?_
    by_cases here : m.1 = name <;> simp [here, known]
  rw [← narrowed members', same, narrowed]

section
variable {b : Block} {members members' : List (String × Json)}

def twoSettings? {α β γ : Type} (name name' : String) (read : Option Json → Option α)
    (read' : Option Json → Option β) (make : α → β → γ) (j : Json) : Option γ := do
  match ← j.fields? [name, name'] with
  | [field, field'] => return make (← read field) (← read' field')
  | _ => none

theorem withProperties_object (notInput : ∀ settings, b ≠ input settings)
    (members : List (String × Json)) :
    b.withProperties (.object members) = match b.ofSettings? (.object members) with
      | some made => .ok made
      | none => .error .malformed := by
  cases b with
  | input settings => exact absurd rfl (notInput settings)
  | _ => rfl

theorem ofSettings?_congr (same : ∀ name ∈ b.settingNames,
      members'.filter (·.1 == name) = members.filter (·.1 == name)) :
    b.ofSettings? (.object members') = b.ofSettings? (.object members) := by
  have fields {names : List String} (known : names ⊆ b.settingNames) :
      fields? names (.object members') = fields? names (.object members) :=
    fields?_congr fun name mem => same name (known mem)
  have one {α : Type} {name : String} {usual : α} {read : Json → Option α}
      (known : [name] ⊆ b.settingNames) :
      oneSetting? name usual read (.object members')
        = oneSetting? name usual read (.object members) := by
    rw [oneSetting?, oneSetting?, fields known]
  have two {α β γ : Type} {name name' : String} {read : Option Json → Option α}
      {read' : Option Json → Option β} {make : α → β → γ} (known : [name, name'] ⊆ b.settingNames) :
      twoSettings? name name' read read' make (.object members')
        = twoSettings? name name' read read' make (.object members) := by
    rw [twoSettings?, twoSettings?, fields known]
  cases b with
  | output | vectorConverter | shift | scaling | matrixCompose | info | input _ | custom _ => rfl
  | mesh _ _ | instantiateOnVertices _ _ | instantiateOnVolume _ _ =>
    exact two (by simp [settingNames, properties])
  | _ => exact congrArg (Option.map _) (one (List.Subset.refl _))

theorem inputSettings_congr (same : ∀ name ∈ ["contextualValue", "kind", "value"],
      members'.filter (·.1 == name) = members.filter (·.1 == name)) :
    inputSettings (.object members') = inputSettings (.object members) := by
  have get {key : String} (known : key ∈ ["contextualValue", "kind", "value"]) :=
    get?_congr (same key known)
  rw [inputSettings, inputSettings, get (by simp), get (by simp), get (by simp)]

theorem withProperties_congr
    (same : members'.filter (fun m => b.settingNames.contains m.1)
      = members.filter fun m => b.settingNames.contains m.1) :
    b.withProperties (.object members') = b.withProperties (.object members) := by
  have known : ∀ name ∈ b.settingNames, _ := fun _ mem => filter_key_of_known same mem
  obtain ⟨settings, rfl⟩ | notInput := exists_or_forall_not (b = .input ·)
  · exact inputSettings_congr known
  · rw [withProperties_object notInput, withProperties_object notInput, ofSettings?_congr known]

end
end Block

theorem Registry.exists_model {className : String} {factory : Json → Except CreateError Block}
    (found : standard.factories.lookup className = some factory) :
    ∃ b ∈ Block.standard, b.className = className ∧ factory = factoryOf b := by
  obtain ⟨b, mem, same⟩ := List.mem_map.1 (mem_of_lookup found)
  cases same
  exact ⟨b, mem, rfl, rfl⟩

theorem Registry.create_congr {className : String} {members members' : List (String × Json)}
    (same : ∀ b ∈ Block.standard, b.className = className →
      members'.filter (fun m => b.settingNames.contains m.1)
        = members.filter fun m => b.settingNames.contains m.1) :
    standard.create className (.object members') = standard.create className (.object members) := by
  rw [create, create]
  cases found : standard.factories.lookup className with
  | none => rfl
  | some factory =>
    obtain ⟨b, mem, named, rfl⟩ := exists_model found
    exact congrArg (Except.mapError _) (Block.withProperties_congr (same b mem named))

theorem Registry.exists_model_of_create {className : String} {j : Json} {made : Block}
    (created : standard.create className j = .ok made) :
    ∃ b ∈ Block.standard, b.className = className ∧ made.usual = b := by
  cases found : standard.factories.lookup className with
  | none =>
    rw [create, found] at created
    cases created
  | some factory =>
    obtain ⟨b, mem, rfl, -⟩ := exists_model found
    exact ⟨b, mem, rfl, Block.usual_of_create mem created⟩

namespace Graph

variable {g : Graph} {id : BlockId} {n : Node} {b : Block}

theorem loadInput_undeclared (here : g.node? id = some n)
    (specs : n.inputs.map (·.spec) = b.inputSpecs) {i : SavedInput}
    (unknown : b.declares i = false) :
    g.loadInput id i = .ok g := by
  have missing : n.find? .input i.name = none := by
    rw [Node.find?, List.findIdx?_eq_none_iff]
    intro s mem
    rw [Block.declares, ← specs, List.any_map, List.any_eq_false] at unknown
    simpa using unknown s mem
  rw [loadInput, namedSocket_of_node? here, missing]
  cases i.value <;> rfl

theorem loadInputs_declared (here : g.node? id = some n)
    (specs : n.inputs.map (·.spec) = b.inputSpecs) (inputs : List SavedInput) :
    inputs.foldlM (fun (g : Graph) i => g.loadInput id i) g
      = (inputs.filter b.declares).foldlM (fun (g : Graph) i => g.loadInput id i) g := by
  induction inputs generalizing g n with
  | nil => rfl
  | cons i rest ih =>
    rw [List.foldlM_cons]
    cases known : b.declares i with
    | false =>
      rw [List.filter_cons_of_neg (by simp [known]), loadInput_undeclared here specs known]
      exact ih here specs
    | true =>
      rw [List.filter_cons_of_pos known, List.foldlM_cons]
      refine bind_congr_of_ok fun g' done => ?_
      obtain ⟨n', here', specs'⟩ := inputSpecs_of_outline (outline_of_loadInput here done) here
      exact ih here' (specs'.trans specs)

theorem loadBlock_congr {saved saved' : SavedBlock} (agrees : saved.Agrees saved') :
    g.loadBlock .standard saved' = g.loadBlock .standard saved := by
  rw [loadBlock, loadBlock, agrees.className, agrees.id, agrees.name,
    Registry.create_congr agrees.settings]
  refine bind_congr_of_ok fun made created => bind_congr_of_ok fun g' inserted => ?_
  rw [mapError_eq_ok_iff] at created inserted
  obtain ⟨b, mem, named, usual⟩ := Registry.exists_model_of_create created
  obtain ⟨n, here, specs⟩ := inputSpecs_of_insert inserted
  rw [← made.inputSpecs_usual, usual] at specs
  have same : saved'.inputs.filter b.declares = saved.inputs.filter b.declares :=
    agrees.inputs b mem named
  rw [loadInputs_declared here specs, same, ← loadInputs_declared here specs]

theorem loadBlocks_congr {blocks blocks' : List SavedBlock}
    (agree : List.Forall₂ SavedBlock.Agrees blocks blocks') (g : Graph) :
    blocks'.foldlM (loadBlock .standard) g = blocks.foldlM (loadBlock .standard) g := by
  induction agree generalizing g with
  | nil => rfl
  | cons agrees _ ih =>
    rw [List.foldlM_cons, List.foldlM_cons, loadBlock_congr agrees]
    exact bind_congr_of_ok fun g' _ => ih g'

theorem load_congr {saved saved' : SavedGraph}
    (blocks : List.Forall₂ SavedBlock.Agrees saved.blocks saved'.blocks)
    (connections : saved'.connections = saved.connections) (output : saved'.output = saved.output) :
    load .standard saved' = load .standard saved := by
  rw [load, load, loadBlocks_congr blocks, connections, output]

end Graph

namespace Json

def without (key : String) (members : List (String × Json)) : List (String × Json) :=
  members.filter (·.1 ≠ key)

/-- What a record has under a name: nothing, a value, or too much. -/
def field? (name : String) (members : List (String × Json)) : Option (Option Json) :=
  match members.filter (·.1 == name) with
  | [] => some none
  | [(_, value)] => some (some value)
  | _ => none

theorem fields?_eq_mapM (names : List String) (members : List (String × Json)) :
    fields? names (.object members) = names.mapM (field? · members) := rfl

variable {key name : String} (members : List (String × Json))

theorem field?_without_self : field? key (without key members) = some none := by
  have gone : (without key members).filter (·.1 == key) = [] := by
    rw [without, List.filter_filter, List.filter_eq_nil_iff]
    intro m _
    simp
  rw [field?, gone]

theorem field?_without_other (other : name ≠ key) :
    field? name (without key members) = field? name members := by
  have kept : (without key members).filter (·.1 == name) = members.filter (·.1 == name) := by
    rw [without, List.filter_filter]
    refine List.filter_congr fun m _ => ?_
    by_cases here : m.1 = name <;> simp [here, other]
  rw [field?, kept, field?]

theorem field?_insertMember_other (other : name ≠ key) (value : Json) :
    field? name (insertMember key value members) = field? name members := by
  have kept : (insertMember key value members).filter (·.1 == name)
      = members.filter (·.1 == name) := by
    induction members with
    | nil => simp [insertMember, other.symm]
    | cons m rest ih =>
      rw [insertMember]
      split
      · exact List.filter_cons_of_neg (by simpa using other.symm)
      · split
        · rename_i same
          rw [List.filter_cons_of_neg (by simpa using other.symm),
            List.filter_cons_of_neg (by simpa [← same] using other.symm)]
        · rw [List.filter_cons, List.filter_cons, ih]
  rw [field?, kept, field?]

theorem field?_insertMember_self (value : Json) :
    field? key (insertMember key value (without key members)) = some (some value) := by
  have absent : ∀ m ∈ without key members, m.1 ≠ key := fun m mem => by
    simpa using (List.mem_filter.1 mem).2
  have alone : (insertMember key value (without key members)).filter (·.1 == key)
      = [(key, value)] := by
    revert absent
    generalize without key members = kept
    intro absent
    induction kept with
    | nil => simp [insertMember]
    | cons m rest ih =>
      obtain ⟨other, others⟩ := List.forall_mem_cons.1 absent
      have gone : rest.filter (·.1 == key) = [] :=
        List.filter_eq_nil_iff.2 fun m mem => by simpa using others m mem
      rw [insertMember, if_neg other.symm]
      split
      · rw [List.filter_cons_of_pos (by simp), List.filter_cons_of_neg (by simpa using other), gone]
      · rw [List.filter_cons_of_neg (by simpa using other), ih others]
  rw [field?, alone]

end Json

namespace Block

section
variable {α β γ : Type} {name name' key : String} {members : List (String × Json)}

theorem oneSetting?_usual {usual : α} {read : Json → Option α} {j : Json}
    (reads : read j = some usual) (members : List (String × Json)) :
    oneSetting? name usual read (.object (without name members)) = some usual ∧
    oneSetting? name usual read (.object (insertMember name j (without name members)))
      = some usual := by
  simp [oneSetting?, fields?_eq_mapM, field?_without_self, field?_insertMember_self, orElse, reads]

theorem twoSettings?_object {read : Option Json → Option α} {read' : Option Json → Option β}
    {make : α → β → γ} (members : List (String × Json)) :
    twoSettings? name name' read read' make (.object members)
      = (field? name members).bind fun field => (field? name' members).bind fun field' =>
        (read field).bind fun a => (read' field').map (make a) := by
  rw [twoSettings?, fields?_eq_mapM, List.mapM_cons, List.mapM_cons, List.mapM_nil]
  cases field? name members with
  | none => rfl
  | some field =>
    cases field? name' members with
    | none => rfl
    | some field' =>
      change ((read field).bind fun a => (read' field').bind fun b => some (make a b)) = _
      simp only [Option.map_eq_bind, Function.comp_def, Option.bind_some]

/-- Where a record of two settings is read, it is without either of them as well, and then just as
with the usual one. -/
theorem twoSettings?_usual {read : Option Json → Option α} {read' : Option Json → Option β}
    {make : α → β → γ} {j j' value : Json} {a : α} {b : β} (different : name ≠ name')
    (one : (key, value) ∈ [(name, j), (name', j')])
    (usual : read none = some a ∧ read (some j) = some a)
    (usual' : read' none = some b ∧ read' (some j') = some b) {made : γ}
    (done : twoSettings? name name' read read' make (.object members) = some made) :
    ∃ made', twoSettings? name name' read read' make (.object (without key members)) = some made' ∧
      twoSettings? name name' read read' make
        (.object (insertMember key value (without key members))) = some made' := by
  simp only [twoSettings?_object, Option.bind_eq_some_iff, Option.map_eq_some_iff] at done
  obtain ⟨field, found, field', found', x, reads, y, reads', -⟩ := done
  rcases List.mem_pair.1 one with ⟨⟨⟩⟩ | ⟨⟨⟩⟩
  · refine ⟨make a y, ?_⟩
    simp [twoSettings?_object, field?_without_self, field?_insertMember_self,
      field?_without_other _ different.symm, field?_insertMember_other _ different.symm, found',
      usual, reads']
  · refine ⟨make x b, ?_⟩
    simp [twoSettings?_object, field?_without_self, field?_insertMember_self,
      field?_without_other _ different, field?_insertMember_other _ different, found,
      usual', reads]

end

theorem exists_ofSettings?_usual {b : Block} (standard : b ∈ Block.standard)
    {settings : List (String × Json)} (written : b.properties = .object settings) {key : String}
    {usual : Json} (mem : (key, usual) ∈ settings) {members : List (String × Json)} {made : Block}
    (done : b.ofSettings? (.object members) = some made) :
    ∃ made', b.ofSettings? (.object (without key members)) = some made' ∧
      b.ofSettings? (.object (insertMember key usual (without key members))) = some made' := by
  obtain ⟨isStandard, same⟩ := usual_of_mem b standard
  have one {α : Type} {name : String} {usual' : α} {read : Json → Option α} {make : α → Block}
      {j : Json} (mem : (key, usual) ∈ [(name, j)]) (reads : read j = some usual') :
      ∃ made',
        (oneSetting? name usual' read (.object (without key members))).map make = some made' ∧
        (oneSetting? name usual' read (.object (insertMember key usual (without key members)))).map
          make = some made' := by
    cases List.mem_singleton.1 mem
    obtain ⟨left, written⟩ := oneSetting?_usual reads members
    exact ⟨_, congrArg (Option.map make) left, congrArg (Option.map make) written⟩
  cases b with
  | custom _ => cases isStandard
  | output | vectorConverter | shift | scaling | matrixCompose | info | input _ =>
    exact ⟨_, rfl, rfl⟩
  | mesh _ _ =>
    cases same
    cases written
    have swapped := List.mem_pair.2 (List.mem_pair.1 mem).symm
    exact twoSettings?_usual (by decide) swapped ⟨rfl, rfl⟩ ⟨rfl, rfl⟩ done
  | instantiateOnVertices _ _ | instantiateOnVolume _ _ =>
    cases same
    cases written
    exact twoSettings?_usual (by decide) mem ⟨rfl, rfl⟩ ⟨rfl, rfl⟩ done
  | _ =>
    cases same
    cases written
    exact one mem rfl

theorem exists_withProperties_usual {b : Block} (standard : b ∈ Block.standard)
    (notInput : ∀ settings, b ≠ input settings) {settings : List (String × Json)}
    (written : b.properties = .object settings) {key : String} {usual : Json}
    (mem : (key, usual) ∈ settings) {members : List (String × Json)} {made : Block}
    (done : b.withProperties (.object members) = .ok made) :
    ∃ made', b.withProperties (.object (without key members)) = .ok made' ∧
      b.withProperties (.object (insertMember key usual (without key members))) = .ok made' := by
  simp only [withProperties_object notInput] at done ⊢
  cases read : b.ofSettings? (.object members) with
  | none =>
    rw [read] at done
    cases done
  | some found =>
    obtain ⟨made', left, written'⟩ := exists_ofSettings?_usual standard written mem read
    exact ⟨made', by rw [left], by rw [written']⟩

end Block

def SavedBlock.withSettings (saved : SavedBlock) (members : List (String × Json)) : SavedBlock :=
  { saved with properties := members }

def SavedBlock.leaving (saved : SavedBlock) (key : String) : SavedBlock :=
  saved.withSettings (without key saved.properties)

def SavedBlock.setting (saved : SavedBlock) (key : String) (value : Json) : SavedBlock :=
  saved.withSettings (insertMember key value (without key saved.properties))

namespace Graph

theorem sketchBlock_congr {r : Registry} {g : Graph} {saved : SavedBlock}
    {members : List (String × Json)} {made made' : Block}
    (created : r.create saved.className (.object saved.properties) = .ok made)
    (created' : r.create saved.className (.object members) = .ok made')
    (same : made'.usual = made.usual) :
    g.sketchBlock r (saved.withSettings members) = g.sketchBlock r saved := by
  have inputs : made'.inputSpecs = made.inputSpecs := by
    rw [← made'.inputSpecs_usual, same, made.inputSpecs_usual]
  have inserted : (g.insert saved.id saved.name made').map outline
      = (g.insert saved.id saved.name made).map outline :=
    (g.outline_insert _ _ same).trans (g.outline_insert _ _ rfl).symm
  rw [sketchBlock, sketchBlock, created, SavedBlock.withSettings]
  simp only [created']
  change ((g.insert saved.id saved.name made').map outline).mapError LoadError.graph >>= _ = _
  rw [inserted, inputs]
  rfl

theorem exists_load_settled {saved : SavedGraph} {before after : List SavedBlock}
    {block : SavedBlock} (blocks : saved.blocks = before ++ block :: after)
    {members : List (String × Json)} {made made' : Block}
    (created : Registry.standard.create block.className (.object block.properties) = .ok made)
    (created' : Registry.standard.create block.className (.object members) = .ok made')
    (same : made'.usual = made.usual) {g : Graph} (done : load .standard saved = .ok g) :
    ∃ g', load .standard { saved with
      blocks := before ++ block.withSettings members :: after } = .ok g' := by
  rw [exists_load_iff]
  obtain ⟨g', sketched⟩ := (exists_load_iff .standard saved).1 ⟨g, done⟩
  refine ⟨g', ?_⟩
  rw [← sketched, sketch, sketch, blocks]
  simp only [List.foldlM_append, List.foldlM_cons, sketchBlock_congr created created' same]

theorem exists_created {saved : SavedGraph} {before after : List SavedBlock} {block : SavedBlock}
    (blocks : saved.blocks = before ++ block :: after) {g : Graph}
    (done : load .standard saved = .ok g) :
    ∃ made, Registry.standard.create block.className (.object block.properties) = .ok made := by
  simp only [load, blocks, List.foldlM_append, List.foldlM_cons, bind_eq_ok_iff] at done
  obtain ⟨_, ⟨_, -, _, loaded, -⟩, -⟩ := done
  simp only [loadBlock, bind_eq_ok_iff, mapError_eq_ok_iff] at loaded
  obtain ⟨made, created, -⟩ := loaded
  exact ⟨made, created⟩

theorem exists_load_usual {saved : SavedGraph} {g : Graph} (done : load .standard saved = .ok g)
    {before after : List SavedBlock} {block : SavedBlock}
    (blocks : saved.blocks = before ++ block :: after) {b : Block} (standard : b ∈ Block.standard)
    (notInput : ∀ settings, b ≠ .input settings) (className : b.className = block.className)
    {settings : List (String × Json)} (written : b.properties = .object settings) {key : String}
    {usual : Json} (mem : (key, usual) ∈ settings) :
    ∃ g',
      load .standard { saved with blocks := before ++ block.leaving key :: after } = .ok g' ∧
      load .standard { saved with blocks := before ++ block.setting key usual :: after }
        = .ok g' := by
  obtain ⟨isStandard, same⟩ := Block.usual_of_mem b standard
  have creates (j : Json) : Registry.standard.create block.className j
      = (b.withProperties j).mapError .properties := by
    rw [← className, Registry.create_standard isStandard, same]
  obtain ⟨made, created⟩ := exists_created blocks done
  have read := created
  rw [creates, mapError_eq_ok_iff] at read
  obtain ⟨made', readLeft, readUsual⟩ :=
    Block.exists_withProperties_usual standard notInput written mem read
  have createdLeft : Registry.standard.create block.className
      (.object (without key block.properties)) = .ok made' := by
    rw [creates, readLeft]
    rfl
  have createdUsual : Registry.standard.create block.className
      (.object (insertMember key usual (without key block.properties))) = .ok made' := by
    rw [creates, readUsual]
    rfl
  have sameClass : made'.usual = made.usual := by
    rw [Block.usual_of_create standard (className ▸ createdLeft),
      Block.usual_of_create standard (className ▸ created)]
  have alike (g : Graph) : g.loadBlock .standard (block.setting key usual)
      = g.loadBlock .standard (block.withSettings (without key block.properties)) := by
    simp only [loadBlock, SavedBlock.setting, SavedBlock.withSettings, createdUsual, createdLeft]
  obtain ⟨g', loaded⟩ := exists_load_settled blocks created createdLeft sameClass done
  refine ⟨g', loaded, ?_⟩
  rw [← loaded]
  simp only [load, List.foldlM_append, List.foldlM_cons, alike]

/-- A saved graph that loads goes on to load into the same graph whatever is added to its blocks
that their classes do not know, be it settings, inputs or outputs. Any setting of a block that is no
input block may be left out as well, and the graph is the one that its usual value gives. -/
theorem load_across_versions {saved : SavedGraph} {g : Graph}
    (done : load .standard saved = .ok g) :
    (∀ saved' : SavedGraph, List.Forall₂ SavedBlock.Agrees saved.blocks saved'.blocks →
      saved'.connections = saved.connections → saved'.output = saved.output →
      load .standard saved' = .ok g) ∧
    ∀ before block after, saved.blocks = before ++ block :: after →
      ∀ b ∈ Block.standard, (∀ settings, b ≠ .input settings) → b.className = block.className →
      ∀ settings key usual, b.properties = .object settings → (key, usual) ∈ settings →
      ∃ g',
        load .standard { saved with blocks := before ++ block.leaving key :: after } = .ok g' ∧
        load .standard { saved with blocks := before ++ block.setting key usual :: after }
          = .ok g' := by
  refine ⟨fun saved' blocks connections output => ?_, ?_⟩
  · rw [load_congr blocks connections output, done]
  · intro before block after blocks b standard notInput className settings key usual written mem
    exact exists_load_usual done blocks standard notInput className written mem

def crowdBlock : SavedBlock where
  className := "InstantiateOnVolumeBlock"
  id := 3
  inputs := [⟨"count", some (.number (.int 5))⟩]
  properties := [("evaluateContext", .bool false), ("maxAttempts", .number (.int 7))]

def laterCrowdBlock : SavedBlock where
  className := "InstantiateOnVolumeBlock"
  id := 3
  inputs := [⟨"density", some (.string "high")⟩, ⟨"count", some (.number (.int 5))⟩]
  outputs := [⟨"geometry"⟩, ⟨"leftover"⟩]
  properties := [("evaluateContext", .bool false), ("maxAttempts", .number (.int 7)),
    ("shape", .object [("round", .null)])]

theorem load_across_versions_crowd : ∃ g g',
    load .standard { blocks := [crowdBlock] } = .ok g ∧
    load .standard { blocks := [laterCrowdBlock] } = .ok g ∧
    load .standard { blocks := [crowdBlock.leaving "maxAttempts"] } = .ok g' ∧
    load .standard { blocks := [crowdBlock.setting "maxAttempts" (.ofNat 100)] } = .ok g' := by
  have standard : Block.instantiateOnVolume true 100 ∈ Block.standard := by simp [Block.standard]
  have done : load .standard { blocks := [crowdBlock] } = .ok _ := rfl
  obtain ⟨later, usual⟩ := load_across_versions done
  have agrees : crowdBlock.Agrees laterCrowdBlock :=
    SavedBlock.agrees_of_model standard rfl rfl rfl rfl rfl rfl
  have notInput (settings : InputBlock) : Block.instantiateOnVolume true 100 ≠ .input settings := by
    intro same
    cases same
  obtain ⟨g', left, written⟩ :=
    usual [] crowdBlock [] rfl _ standard notInput rfl _ "maxAttempts" _ rfl (.tail _ (.head _))
  exact ⟨_, g', done, later _ (.cons agrees .nil) rfl rfl, left, written⟩

end Graph
end MeshFlow
