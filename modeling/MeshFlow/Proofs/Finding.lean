import MeshFlow.Proofs.Plain
import MeshFlow.Proofs.Standard

set_option autoImplicit false

/-!
# What programs report

A program reports what it finds while it runs: contexts that are missing, geometry that is of no
use, values of a wrong kind. That an input of a block is not connected is not among it, whatever the
program is answered; and no more is it for the programs that a block hands on, to be run at reads.
-/
namespace MeshFlow
namespace Program
variable {α β σ : Type} {P : α → Prop} {Q : β → Prop}

/-- Whatever the answers, the program reports only what programs find, and comes to a result of a
sort. -/
def Finds (P : α → Prop) : Program α → Prop
  | done a => P a
  | read _ k => ∀ v, (k v).Finds P
  | adapt _ _ k => ∀ v?, (k v?).Finds P
  | isConnected _ k | isVarying _ k => ∀ b, (k b).Finds P
  | contexts k => ∀ c, (k c).Finds P
  | enter _ k | keep _ _ k => k.Finds P
  | draw k => ∀ x, (k x).Finds P
  | record d k => d.IsFound ∧ k.Finds P
  | kept _ k => ∀ v?, (k v?).Finds P

abbrev OnlyFinds (p : Program α) : Prop := p.Finds fun _ => True

theorem finds_pure {a : α} (h : P a) : (pure a : Program α).Finds P := h

theorem onlyFinds_pure (a : α) : (pure a : Program α).OnlyFinds := finds_pure True.intro

theorem Finds.bind {p : Program α} (h : p.Finds P) {f : α → Program β}
    (h' : ∀ a, P a → (f a).Finds Q) : (p >>= f).Finds Q := by
  induction p with
  | done a => exact h' a h
  | read i k ih | adapt i kind k ih | isConnected i k ih | isVarying i k ih | contexts k ih
  | draw k ih | kept key k ih => exact fun answer => ih answer (h answer)
  | enter c k ih | keep key v k ih => exact ih h
  | record d k ih => exact ⟨h.1, ih h.2⟩

theorem OnlyFinds.then {p : Program α} (h : p.OnlyFinds) {f : α → Program β}
    (h' : ∀ a, (f a).Finds Q) : (p >>= f).Finds Q := Finds.bind h fun a _ => h' a

theorem Finds.ite {p q : Program α} (h : p.Finds P) (h' : q.Finds P) (b : Prop) [Decidable b] :
    (if b then p else q).Finds P := by
  split
  · exact h
  · exact h'

theorem Plain.onlyFinds {p : Program α} (h : p.Plain fun _ => True) : p.OnlyFinds := by
  induction p with
  | done a => exact True.intro
  | read i k ih | adapt i kind k ih | isConnected i k ih => exact fun answer => ih answer (h answer)
  | record d k ih => exact ⟨h.1, ih h.2.2⟩
  | isVarying | contexts | enter | draw | kept | keep => exact h.elim

theorem onlyFinds_currentContexts : currentContexts.OnlyFinds := fun _ => True.intro

theorem onlyFinds_setContexts (c : Contexts) : (setContexts c).OnlyFinds := True.intro

theorem onlyFinds_uniform : uniform.OnlyFinds := fun _ => True.intro

theorem onlyFinds_varying (i : Nat) : (varying i).OnlyFinds := fun _ => True.intro

theorem onlyFinds_report {d : Diagnostic} (found : d.IsFound) : (report d).OnlyFinds :=
  (plain_report found (d.within_of_all fun _ => True.intro)).onlyFinds

theorem onlyFinds_contextual (source : ContextualSource) : (contextual source).OnlyFinds := by
  refine onlyFinds_currentContexts.then fun c => Finds.ite ?_ (onlyFinds_pure _) _
  exact (onlyFinds_report (by trivial)).then fun _ => onlyFinds_pure _

theorem OnlyFinds.inScope {p : Program α} (h : p.OnlyFinds) : (inScope p).OnlyFinds :=
  onlyFinds_currentContexts.then fun outer => h.then fun _ =>
    (onlyFinds_setContexts outer).then fun _ => onlyFinds_pure _

theorem onlyFinds_forEach {step : σ → α → Program σ} (h : ∀ s a, (step s a).OnlyFinds)
    (entries : List α) (s : σ) : (forEach step entries s).OnlyFinds := by
  induction entries generalizing s with
  | nil => exact onlyFinds_pure s
  | cons a rest ih => exact (h s a).then fun s' => ih s'

end Program

namespace Block
open Program

theorem onlyFinds_drawComponents (kind : Kind) (ranges : List (Float32 × Float32)) :
    (drawComponents kind ranges).OnlyFinds := by
  induction ranges with
  | nil => exact onlyFinds_pure _
  | cons range rest ih =>
    exact onlyFinds_uniform.then fun _ => ih.then fun _ => onlyFinds_pure _

theorem onlyFinds_freshRandom : freshRandom.OnlyFinds := by
  refine (plain_value 0).onlyFinds.then fun low => ?_
  cases low.kind? with
  | none => exact onlyFinds_pure _
  | some kind =>
    refine Finds.ite (onlyFinds_pure _) ?_ _
    refine (plain_adapted 1 kind).onlyFinds.then fun high => ?_
    split
    · exact (onlyFinds_drawComponents kind _).then fun _ => onlyFinds_pure _
    · exact onlyFinds_pure _

theorem onlyFinds_keptRandom (key : Int) : (keptRandom key).OnlyFinds
  | none => onlyFinds_freshRandom.then fun _ => True.intro
  | some _ => True.intro

theorem onlyFinds_random (lock : Lock) : (randomProgram lock).OnlyFinds := by
  have keptFor : ∀ number, (randomProgram.keptFor number).OnlyFinds := by
    intro number
    cases number with
    | int i => exact onlyFinds_keptRandom _
    | _ => exact onlyFinds_freshRandom
  cases lock with
  | none => exact onlyFinds_freshRandom
  | once => exact onlyFinds_keptRandom 0
  | loopId | instanceId => exact (onlyFinds_contextual _).then keptFor

variable (id : BlockId)

theorem onlyFinds_vertexEntry (target : Attribute) (outer : Contexts)
    (entries : List (Option (List Float32))) (vertex : Nat) :
    (vertexEntry id target outer entries vertex).OnlyFinds := by
  refine (onlyFinds_setContexts _).then fun _ => (plain_value 1).onlyFinds.then fun v => ?_
  cases target.components? v with
  | some xs => exact onlyFinds_pure _
  | none =>
    refine Finds.ite ?_ (onlyFinds_pure _) _
    exact (onlyFinds_report (by trivial)).then fun _ => onlyFinds_pure _

theorem onlyFinds_setAttribute (target : Attribute) : (setAttributeProgram id target).OnlyFinds := by
  refine OnlyFinds.inScope ((plain_mesh? 0).onlyFinds.then fun m? => ?_)
  cases m? with
  | none => exact onlyFinds_pure _
  | some incoming =>
    refine Finds.ite (onlyFinds_pure _) ?_ _
    refine (plain_connected 1).onlyFinds.then fun _ => Finds.ite (onlyFinds_pure _) ?_ _
    refine onlyFinds_currentContexts.then fun outer => ?_
    exact (onlyFinds_forEach (onlyFinds_vertexEntry id target _) _ _).then fun _ => onlyFinds_pure _

theorem onlyFinds_joined (parts : List Mesh) : (joined parts).OnlyFinds :=
  (plain_joined parts).onlyFinds

theorem onlyFinds_placeAt (inputs : PlacementInputs) (outer : Contexts) (step : Execution)
    (point : Option Space.Vec3) (copies : List Mesh) :
    (placeAt inputs outer step point copies).OnlyFinds :=
  (onlyFinds_setContexts _).then fun _ => (plain_place inputs point copies).onlyFinds

theorem onlyFinds_neverPlaces (input : Nat) : (neverPlaces input).OnlyFinds :=
  (onlyFinds_varying input).then fun _ => Finds.ite (onlyFinds_pure _)
    ((plain_mesh? input).onlyFinds.then fun _ => onlyFinds_pure _) _

theorem onlyFinds_instantiate : (instantiateProgram id).OnlyFinds := by
  refine OnlyFinds.inScope ((plain_countInput 1 1).onlyFinds.then fun count => ?_)
  refine Finds.ite (onlyFinds_pure _) ?_ _
  refine (onlyFinds_neverPlaces _).then fun _ => Finds.ite (onlyFinds_pure _) ?_ _
  refine onlyFinds_currentContexts.then fun outer => ?_
  exact (onlyFinds_forEach (fun copies i => onlyFinds_placeAt loopInputs outer _ none copies) _ _).then
    fun _ => onlyFinds_joined _

theorem onlyFinds_placeOnFace (outer : Contexts) (face : Nat) (t : Space.Triangle)
    (copies : List Mesh) (number : Nat) :
    (placeOnFace id outer face t copies number).OnlyFinds :=
  onlyFinds_uniform.then fun _ => onlyFinds_uniform.then fun _ => onlyFinds_placeAt _ _ _ _ _

theorem onlyFinds_placeFaceShare (outer : Contexts) (count : Nat) (share : Float32) (last : Nat)
    (progress : FaceProgress) (entry : (Nat × Space.Triangle) × Nat) :
    (placeFaceShare id outer count share last progress entry).OnlyFinds := by
  refine Finds.ite (onlyFinds_pure _) ?_ _
  exact (onlyFinds_forEach (onlyFinds_placeOnFace id outer entry.1.1 entry.1.2) _ _).then
    fun _ => onlyFinds_pure _

theorem onlyFinds_instantiateOnFaces : (instantiateOnFacesProgram id).OnlyFinds := by
  refine OnlyFinds.inScope ((plain_baseMesh? id true).onlyFinds.then fun base? => ?_)
  cases base? with
  | none => exact onlyFinds_pure _
  | some base =>
    refine (plain_countInput 2 256).onlyFinds.then fun count => Finds.ite (onlyFinds_pure _) ?_ _
    refine (onlyFinds_neverPlaces _).then fun _ => Finds.ite (onlyFinds_pure _) ?_ _
    refine Finds.ite ((onlyFinds_report (by trivial)).then fun _ => ?_) ?_ _
    all_goals
      refine Finds.ite (onlyFinds_pure _) (onlyFinds_currentContexts.then fun outer => ?_) _
      exact (onlyFinds_forEach (onlyFinds_placeFaceShare id _ count _ _) _ _).then
        fun _ => onlyFinds_joined _

theorem onlyFinds_placeOnVertex (removeDuplicates : Bool) (outer : Contexts) (base : IndexedMesh)
    (density : Float32) (progress : VertexProgress) (entry : Space.Vec3 × Nat) :
    (placeOnVertex id removeDuplicates outer base density progress entry).OnlyFinds := by
  have passedOver : (isPassedOver density).OnlyFinds :=
    Finds.ite (onlyFinds_uniform.then fun _ => onlyFinds_pure _) (onlyFinds_pure _) _
  obtain ⟨point, vertex⟩ := entry
  refine Finds.ite (onlyFinds_pure _) ?_ _
  refine passedOver.then fun _ => Finds.ite (onlyFinds_pure _) ?_ _
  exact (onlyFinds_placeAt _ _ _ _ _).then fun _ => onlyFinds_pure _

theorem onlyFinds_instantiateOnVertices (removeDuplicates : Bool) :
    (instantiateOnVerticesProgram id removeDuplicates).OnlyFinds := by
  refine OnlyFinds.inScope ((plain_baseMesh? id false).onlyFinds.then fun base? => ?_)
  cases base? with
  | none => exact onlyFinds_pure _
  | some base =>
    refine (plain_float 2 1).onlyFinds.then fun density => onlyFinds_currentContexts.then fun _ => ?_
    exact (onlyFinds_forEach (onlyFinds_placeOnVertex id removeDuplicates _ _ density) _ _).then
      fun _ => onlyFinds_joined _

theorem onlyFinds_findInside (surface : List Space.Triangle) (low high : Space.Vec3)
    (attempts : Nat) : (findInside surface low high attempts).OnlyFinds := by
  induction attempts with
  | zero => exact onlyFinds_pure _
  | succ attempts ih =>
    refine onlyFinds_uniform.then fun _ => onlyFinds_uniform.then fun _ =>
      onlyFinds_uniform.then fun _ => ?_
    exact Finds.ite (onlyFinds_pure _) ih _

theorem onlyFinds_placeInside (outer : Contexts) {search : Program (Option Space.Vec3)}
    (h : search.OnlyFinds) (remaining number : Nat) (copies : List Mesh) :
    (placeInside id outer search remaining number copies).OnlyFinds := by
  induction remaining generalizing number copies with
  | zero => exact onlyFinds_pure _
  | succ remaining ih =>
    refine h.then fun point? => ?_
    cases point? with
    | none => exact onlyFinds_pure _
    | some point => exact (onlyFinds_placeAt _ _ _ _ _).then fun copies => ih _ copies

theorem onlyFinds_instantiateOnVolume (maxAttempts : UInt32) :
    (instantiateOnVolumeProgram id maxAttempts).OnlyFinds := by
  refine OnlyFinds.inScope ((plain_baseMesh? id true).onlyFinds.then fun base? => ?_)
  cases base? with
  | none => exact onlyFinds_pure _
  | some base =>
    dsimp only
    cases base.bounds? with
    | none => exact onlyFinds_pure _
    | some bounds =>
      refine (plain_countInput 2 256).onlyFinds.then fun count => Finds.ite (onlyFinds_pure _) ?_ _
      refine (onlyFinds_neverPlaces _).then fun _ => Finds.ite (onlyFinds_pure _) ?_ _
      refine onlyFinds_currentContexts.then fun outer => ?_
      exact (onlyFinds_placeInside id _ (onlyFinds_findInside _ _ _ _) _ _ _).then
        fun _ => onlyFinds_joined _

end Block

def Supply.OnlyFinds : Supply → Prop
  | .value _ => True
  | .onRead program => program.OnlyFinds

def Plan.OnlyFinds (plan : Plan) : Prop := ∀ entry ∈ plan.outputs, entry.2.OnlyFinds

theorem Plan.onlyFinds_onRead {ι : Type} (index : ι → Nat) (program : ι → Program Value)
    (entries : List ι) (h : ∀ e ∈ entries, (program e).OnlyFinds) (result : Option Value) :
    Plan.OnlyFinds ⟨entries.map fun e => (index e, .onRead (program e)), result⟩ := by
  intro entry mem
  obtain ⟨e, he, rfl⟩ := List.mem_map.1 mem
  exact h e he

theorem Plan.onlyFinds_one {supply : Supply} (h : supply.OnlyFinds) (index : Nat)
    (result : Option Value) : Plan.OnlyFinds ⟨[(index, supply)], result⟩ := by
  intro entry mem
  rw [List.mem_singleton.1 mem]
  exact h

theorem Program.OnlyFinds.single {p : Program Value} (h : p.OnlyFinds) (everyRead : Bool) :
    (single everyRead p).Finds Plan.OnlyFinds := by
  have supplied : (supply everyRead p).Finds Supply.OnlyFinds := by
    cases everyRead with
    | true => exact h
    | false => exact h.then fun _ => True.intro
  exact supplied.bind fun _ finds => Plan.onlyFinds_one finds 0 none

theorem Block.IsStandard.finds_plan {b : Block} (h : b.IsStandard) (id : BlockId) (name : String) :
    (b.plan id name).Finds Plan.OnlyFinds := by
  have single : ∀ {p : Program Value}, p.OnlyFinds → ∀ everyRead,
      (Program.single everyRead p).Finds Plan.OnlyFinds := fun h everyRead => h.single everyRead
  have fixed : ∀ v, (Block.fixed v).Finds Plan.OnlyFinds := fun v =>
    Plan.onlyFinds_one (show (Supply.value v).OnlyFinds from True.intro) 0 none
  cases b with
  | custom block => exact h.elim
  | box e => exact single (plain_box id).onlyFinds e
  | sphere e => exact single (plain_sphere id).onlyFinds e
  | plane e => exact single (plain_plane id).onlyFinds e
  | cylinder e => exact single (plain_cylinder id).onlyFinds e
  | pointList points => exact fixed _
  | mesh data reverseWinding => exact fixed _
  | input settings =>
    cases found : settings.source with
    | none =>
      rw [Block.plan, found]
      exact fixed _
    | some source =>
      rw [Block.plan, found]
      exact single (Program.onlyFinds_contextual source) true
  | output => exact fun v entry mem => (List.not_mem_nil mem).elim
  | math operation => exact single (plain_math operation).onlyFinds true
  | random lock => exact single (onlyFinds_random lock) true
  | vectorConverter =>
    exact Plan.onlyFinds_onRead Prod.snd
      (fun entry : (Space.Vec4 → Value) × Nat => do return entry.1 (← combinedVector)) _
      (fun _ _ => (plain_combinedVector.bind fun _ => Program.plain_pure _).onlyFinds) none
  | shift => exact single plain_shift.onlyFinds true
  | scaling => exact single plain_scaling.onlyFinds true
  | rotation axis => exact single (plain_rotation axis).onlyFinds true
  | matrixCompose => exact single plain_compose.onlyFinds true
  | setAttribute target e => exact single (onlyFinds_setAttribute id target) e
  | computeNormals e => exact single plain_computeNormals.onlyFinds e
  | transform e => exact single plain_transform.onlyFinds e
  | merge e => exact single plain_merge.onlyFinds e
  | info =>
    intro entry mem
    simp only [infoPlan, List.mem_cons, List.not_mem_nil, or_false] at mem
    rcases mem with rfl | rfl | rfl | rfl
    · exact ((Program.plain_mesh? 0).bind fun _ => Program.plain_pure _).onlyFinds
    all_goals exact (plain_infoProgram _).onlyFinds
  | instantiate e => exact single (onlyFinds_instantiate id) e
  | instantiateOnFaces e => exact single (onlyFinds_instantiateOnFaces id) e
  | instantiateOnVertices e removeDuplicates =>
    exact single (onlyFinds_instantiateOnVertices id removeDuplicates) e
  | instantiateOnVolume e maxAttempts =>
    exact single (onlyFinds_instantiateOnVolume id maxAttempts) e

end MeshFlow
