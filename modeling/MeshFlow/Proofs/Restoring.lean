import MeshFlow.Proofs.Always
import MeshFlow.Proofs.Plain

set_option autoImplicit false

/-!
# Programs that put the contexts back

A read of an output runs a program under the contexts of the reader, who goes on under whatever
contexts the program leaves. Most programs never enter others; those of the blocks that do, once for
every vertex or instance, are each run in a scope. So every program that a block hands on ends under
the contexts that it started under, on every path.
-/
namespace MeshFlow

/-- Nothing is known of the answers but which inputs are connected. -/
def Answers.unknown (connected : Nat → Bool) : Answers where
  input _ _ _ := True
  connected := connected
  kept _ _ := True

namespace Program

section
variable {α β : Type}

theorem Always.and {A : Answers} {post post' : α → Contexts → Prop} {p : Program α} {c : Contexts}
    (h : p.Always A post c) (h' : p.Always (.unknown A.connected) post' c) :
    p.Always A (fun a c => post a c ∧ post' a c) c := by
  induction p generalizing c with
  | done a => exact ⟨h, h'⟩
  | read i k ih | adapt i kind k ih => exact fun v hv => ih _ (h v hv) (h' v True.intro)
  | isConnected i k ih => exact ih _ h h'
  | isVarying i k ih => exact fun b => ih b (h b) (h' b)
  | contexts k ih => exact ih c h h'
  | enter c' k ih => exact ih h h'
  | draw k ih => exact fun x => ih x (h x) (h' x)
  | record d k ih => exact ih h h'
  | kept key k ih => exact ⟨ih _ h.1 h'.1, fun v hv => ih _ (h.2 v hv) (h'.2 v True.intro)⟩
  | keep key v k ih => exact ⟨h.1, ih h.2 h'.2⟩

theorem always_unknown (connected : Nat → Bool) (p : Program α) (c : Contexts) :
    p.Always (.unknown connected) (fun _ _ => True) c :=
  always_of_forall (fun _ _ => True.intro) (fun _ _ => True.intro) p c

/-- Whatever the answers, the program ends under the contexts that it started under. -/
def Restores (p : Program α) : Prop :=
  ∀ connected c, p.Always (.unknown connected) (fun _ c' => c' = c) c

theorem restores_inScope (p : Program α) : (inScope p).Restores := fun connected c =>
  (always_inScope ..).2 ((always_unknown connected p c).mono fun _ _ _ => rfl)

theorem Plain.restores {p : Program α} (h : p.Plain fun _ => True) : p.Restores := by
  intro connected c
  induction p with
  | done a => rfl
  | read i k ih | adapt i kind k ih => exact fun v _ => ih _ (h _)
  | isConnected i k ih => exact ih _ (h _)
  | record d k ih => exact ih h.2.2
  | isVarying | contexts | enter | draw | kept | keep => exact h.elim

theorem restores_pure (a : α) : (pure a : Program α).Restores := fun _ _ => rfl

theorem Restores.bind {p : Program α} (h : p.Restores) {f : α → Program β}
    (h' : ∀ a, (f a).Restores) : (p >>= f).Restores := by
  intro connected c
  refine (always_bind ..).2 ((h connected c).mono fun a c' same => ?_)
  subst same
  exact h' a connected c'

theorem restores_uniform : uniform.Restores := fun _ _ _ => rfl

theorem restores_contextual (source : ContextualSource) : (contextual source).Restores := by
  have rest : ∀ v : Value, Plain (fun _ => True) (do
      if v.isNull then report (.missingContextualData source)
      return v) := fun v =>
    ((plain_report (by trivial) (by trivial)).bind fun _ => plain_pure _).ite (plain_pure _) _
  exact fun connected c => (rest (c.lookup source)).restores connected c

end
end Program

namespace Block
open Program

theorem restores_drawComponents (kind : Kind) (ranges : List (Float32 × Float32)) :
    (drawComponents kind ranges).Restores := by
  induction ranges with
  | nil => exact restores_pure _
  | cons range rest ih => exact restores_uniform.bind fun _ => ih.bind fun _ => restores_pure _

theorem restores_freshRandom : freshRandom.Restores := by
  refine (plain_value 0).restores.bind fun low => ?_
  cases low.kind? with
  | none => exact restores_pure _
  | some kind =>
    dsimp only
    split
    · exact restores_pure _
    · refine (plain_adapted 1 kind).restores.bind fun high => ?_
      split
      · exact (restores_drawComponents kind _).bind fun _ => restores_pure _
      · exact restores_pure _

theorem restores_keptRandom (key : Int) : (keptRandom key).Restores := by
  refine fun connected c => ⟨?_, fun v _ => rfl⟩
  exact (always_bind ..).2 ((restores_freshRandom connected c).mono fun v c' same =>
    ⟨True.intro, same⟩)

theorem restores_random (lock : Lock) : (randomProgram lock).Restores := by
  have keptFor : ∀ number, (randomProgram.keptFor number).Restores := by
    intro number
    cases number with
    | int i => exact restores_keptRandom _
    | _ => exact restores_freshRandom
  cases lock with
  | none => exact restores_freshRandom
  | once => exact restores_keptRandom 0
  | loopId | instanceId => exact (restores_contextual _).bind keptFor

end Block

def Supply.Restores : Supply → Prop
  | .value _ => True
  | .onRead program => program.Restores

/-- Whatever is run to read an output ends under the contexts of the reader. -/
def Plan.Restores (plan : Plan) : Prop := ∀ entry ∈ plan.outputs, entry.2.Restores

theorem Plan.restores_onRead {ι : Type} (index : ι → Nat) (program : ι → Program Value)
    (entries : List ι) (h : ∀ e ∈ entries, (program e).Restores) (result : Option Value) :
    Plan.Restores ⟨entries.map fun e => (index e, .onRead (program e)), result⟩ := by
  intro entry mem
  obtain ⟨e, he, rfl⟩ := List.mem_map.1 mem
  exact h e he

namespace Program
variable {p : Program Value} (connected : Nat → Bool) (c : Contexts)

theorem Restores.supply (h : p.Restores) (everyRead : Bool) :
    (supply everyRead p).Always (.unknown connected) (fun supply _ => supply.Restores) c := by
  cases everyRead with
  | true => exact h
  | false => exact (always_bind ..).2 ((always_unknown connected p c).mono fun _ _ _ => True.intro)

theorem Restores.single (h : p.Restores) (everyRead : Bool) :
    (single everyRead p).Always (.unknown connected) (fun plan _ => plan.Restores) c := by
  refine (always_bind ..).2 ((h.supply connected c everyRead).mono fun supply _ restores => ?_)
  intro entry mem
  rw [List.mem_singleton.1 mem]
  exact restores

end Program

namespace CustomBlock
open Program
variable {connected : Nat → Bool} {c : Contexts}

theorem restores_forOutputs (block : CustomBlock) {supply : Program Supply}
    (h : ∀ c, supply.Always (.unknown connected) (fun supply _ => supply.Restores) c) :
    (block.forOutputs supply).Always (.unknown connected) (fun plan _ => plan.Restores) c := by
  -- The loop behind `mapM` hands on what it has got so far, in reverse.
  have loop : ∀ (indices : List Nat) (entries : List (Nat × Supply)) (c : Contexts),
      (∀ entry ∈ entries, entry.2.Restores) →
      (List.mapM.loop (fun i => do return (i, ← supply)) indices entries :
        Program (List (Nat × Supply))).Always (.unknown connected)
          (fun entries _ => ∀ entry ∈ entries, entry.2.Restores) c := by
    intro indices
    induction indices with
    | nil => exact fun entries c restores entry mem => restores entry (List.mem_reverse.1 mem)
    | cons i rest ih =>
      intro entries c restores
      refine (always_bind ..).2 ((always_bind ..).2 ((h c).mono fun x c' new => ih _ c' ?_))
      intro entry mem
      rcases List.mem_cons.1 mem with rfl | mem
      · exact new
      · exact restores entry mem
  exact (always_bind ..).2 ((loop _ [] c (by simp)).mono fun _ _ restores => restores)

theorem plan_restores (block : CustomBlock) (own : BlockId) (name : String) :
    (block.plan own name).Always (.unknown connected) (fun plan _ => plan.Restores) c := by
  rw [CustomBlock.plan]
  cases block.script with
  | relay => exact fun v _ => block.restores_forOutputs fun _ => True.intro
  | passOn everyRead =>
    exact block.restores_forOutputs fun c => (plain_value 0).restores.supply connected c everyRead
  | result => exact fun v _ entry mem => (List.not_mem_nil mem).elim
  | nameLength =>
    exact Plan.restores_onRead id (fun _ => pure (Value.ofNat name.utf8ByteSize)) [_]
      (fun _ _ => restores_pure _) none
  | leaky => exact block.restores_forOutputs fun _ => True.intro
  | byName =>
    dsimp only
    split
    · intro v _ entry mem
      rw [List.mem_singleton.1 mem]
      trivial
    · exact fun entry mem => (List.not_mem_nil mem).elim
  | idle => exact fun entry mem => (List.not_mem_nil mem).elim

end CustomBlock

theorem Block.plan_restores (b : Block) (id : BlockId) (name : String) (connected : Nat → Bool)
    (c : Contexts) :
    (b.plan id name).Always (.unknown connected) (fun plan _ => plan.Restores) c := by
  have single : ∀ {p : Program Value}, p.Restores → ∀ everyRead,
      (Program.single everyRead p).Always (.unknown connected) (fun plan _ => plan.Restores) c :=
    fun h everyRead => h.single connected c everyRead
  have fixed : ∀ v, (Block.fixed v).Always (.unknown connected) (fun plan _ => plan.Restores) c := by
    intro v entry mem
    rw [List.mem_singleton.1 mem]
    trivial
  cases b with
  | box e => exact single (plain_box id).restores e
  | sphere e => exact single (plain_sphere id).restores e
  | plane e => exact single (plain_plane id).restores e
  | cylinder e => exact single (plain_cylinder id).restores e
  | pointList points => exact fixed _
  | mesh data reverseWinding => exact fixed _
  | input settings =>
    cases h : settings.source with
    | none => simpa only [Block.plan, h] using fixed settings.value
    | some source => simpa only [Block.plan, h] using single (Program.restores_contextual source) true
  | output => exact fun v _ entry mem => (List.not_mem_nil mem).elim
  | math operation => exact single (plain_math operation).restores true
  | random lock => exact single (restores_random lock) true
  | vectorConverter =>
    exact Plan.restores_onRead Prod.snd
      (fun entry : (Space.Vec4 → Value) × Nat => do return entry.1 (← combinedVector)) _
      (fun _ _ => (plain_combinedVector.bind fun _ => Program.plain_pure _).restores) none
  | shift => exact single plain_shift.restores true
  | scaling => exact single plain_scaling.restores true
  | rotation axis => exact single (plain_rotation axis).restores true
  | matrixCompose => exact single plain_compose.restores true
  | setAttribute target e => exact single (Program.restores_inScope _) e
  | computeNormals e => exact single plain_computeNormals.restores e
  | transform e => exact single plain_transform.restores e
  | merge e => exact single plain_merge.restores e
  | info =>
    intro entry mem
    simp only [infoPlan, List.mem_cons, List.not_mem_nil, or_false] at mem
    rcases mem with rfl | rfl | rfl | rfl
    · exact ((Program.plain_mesh? 0).bind fun _ => Program.plain_pure _).restores
    all_goals exact (plain_infoProgram _).restores
  | instantiate e | instantiateOnFaces e => exact single (Program.restores_inScope _) e
  | instantiateOnVertices e removeDuplicates => exact single (Program.restores_inScope _) e
  | instantiateOnVolume e maxAttempts => exact single (Program.restores_inScope _) e
  | custom block => exact block.plan_restores id name

end MeshFlow
