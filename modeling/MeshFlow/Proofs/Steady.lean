import MeshFlow.Proofs.Always
import MeshFlow.Proofs.Plain

set_option autoImplicit false

/-!
# Programs with one result

Where every input has one value, a program that draws nothing and keeps nothing may come to one
result under all contexts, whatever it is told of how its inputs are worked out. The programs of
most blocks do; so what such a block yields does not depend on when its programs are run.
-/
namespace MeshFlow

/-- Every input has one value, and nothing is kept. -/
def Answers.fixed (values : Nat → Value) (connected : Nat → Bool) : Answers where
  input i _ v := v = values i
  connected := connected
  kept _ _ := False

namespace Program

/-- The result of a program where every input has one value, run from given contexts. -/
def settled {α : Type} (values : Nat → Value) (connected : Nat → Bool) :
    Program α → Contexts → α
  | done a, _ => a
  | read i k, c => (k (values i)).settled values connected c
  | adapt i kind k, c => (k ((values i).coerce? kind)).settled values connected c
  | isConnected i k, c => (k (connected i)).settled values connected c
  | isVarying _ k, c => (k true).settled values connected c
  | contexts k, c => (k c).settled values connected c
  | enter c k, _ => k.settled values connected c
  | draw k, c => (k 0).settled values connected c
  | record _ k, c => k.settled values connected c
  | kept _ k, c => (k none).settled values connected c
  | keep _ _ k, c => k.settled values connected c

section
variable {α β : Type} {values : Nat → Value} {connected : Nat → Bool}

theorem Always.settled {post : α → Contexts → Prop} {p : Program α} {c : Contexts}
    (h : p.Always (.fixed values connected) post c) :
    ∃ c', post (p.settled values connected c) c' := by
  induction p generalizing c with
  | done a => exact ⟨c, h⟩
  | read i k ih | adapt i kind k ih => exact ih _ (h _ rfl)
  | isConnected i k ih => exact ih _ h
  | isVarying i k ih => exact ih true (h true)
  | contexts k ih => exact ih c h
  | enter c' k ih => exact ih h
  | draw k ih => exact ih 0 (h 0)
  | record d k ih => exact ih h
  | kept key k ih => exact ih none h.1
  | keep key v k ih => exact ih h.2

end

section
variable {α β σ ι : Type} {A : Answers}

/-- Whatever the contexts, the program comes to one result. -/
def Comes (A : Answers) (p : Program α) (a : α) : Prop := ∀ c, p.Always A (fun b _ => b = a) c

def Steady (A : Answers) (p : ι → Program α) : Prop := ∃ a, ∀ i, (p i).Comes A a

theorem comes_pure (a : α) : (pure a : Program α).Comes A a := fun _ => rfl

theorem Comes.bind {p : Program α} {a : α} (h : p.Comes A a) {f : α → Program β} {b : β}
    (h' : (f a).Comes A b) : (p >>= f).Comes A b := by
  intro c
  refine (always_bind ..).2 ((h c).mono fun a' c' same => ?_)
  subst same
  exact h' c'

theorem Steady.pure (a : α) : Steady A fun _ : ι => (Pure.pure a : Program α) :=
  ⟨a, fun _ => comes_pure a⟩

theorem Steady.bind {p : ι → Program α} (h : Steady A p) {f : ι → α → Program β}
    (h' : ∀ a, Steady A fun i => f i a) : Steady A fun i => p i >>= f i := by
  obtain ⟨a, comes⟩ := h
  obtain ⟨b, comes'⟩ := h' a
  exact ⟨b, fun i => (comes i).bind (comes' i)⟩

theorem Steady.ite {p q : ι → Program α} (h : Steady A p) (h' : Steady A q) (b : Bool) :
    Steady A fun i => if b then p i else q i := by
  cases b with
  | true => exact h
  | false => exact h'

theorem comes_forEach {step : σ → α → Program σ} {s : σ} (h : ∀ x, (step s x).Comes A s)
    (xs : List α) : (forEach step xs s).Comes A s := by
  induction xs with
  | nil => exact comes_pure s
  | cons x rest ih => exact (h x).bind ih

theorem Steady.forEach {step : ι → σ → α → Program σ}
    (h : ∀ s x, Steady A fun i => step i s x) (xs : List α) (s : σ) :
    Steady A fun i => Program.forEach (step i) xs s := by
  induction xs generalizing s with
  | nil => exact .pure s
  | cons x rest ih => exact (h s x).bind ih

theorem Steady.currentContexts {f : Contexts → Program α} (h : Steady A f) :
    Steady A fun _ : ι => Program.currentContexts >>= f := by
  obtain ⟨a, comes⟩ := h
  exact ⟨a, fun _ c => comes c c⟩

theorem comes_setContexts (c : Contexts) : (Program.setContexts c).Comes A () := fun _ => rfl

theorem Steady.setContexts (c : ι → Contexts) : Steady A fun i => Program.setContexts (c i) :=
  ⟨(), fun i => comes_setContexts (c i)⟩

theorem Steady.inScope {p : ι → Program α} (h : Steady A p) :
    Steady A fun i => Program.inScope (p i) := by
  obtain ⟨a, comes⟩ := h
  exact ⟨a, fun i c => (always_inScope ..).2 (comes i c)⟩

end

section
variable {ι α : Type} {values : Nat → Value} {connected : Nat → Bool}

theorem comes_mesh? (i : Nat) :
    (mesh? i).Comes (.fixed values connected)
      (((values i).coerce? .geometry).bind Value.mesh?) := by
  intro c v known
  subst known
  rfl

theorem Plain.comes {p : Program α} (h : p.Plain fun _ => True) :
    ∃ a, p.Comes (.fixed values connected) a := by
  induction p with
  | done a => exact ⟨a, comes_pure a⟩
  | read i k ih | adapt i kind k ih =>
    obtain ⟨a, comes⟩ := ih _ (h _)
    refine ⟨a, fun c v known => ?_⟩
    subst known
    exact comes c
  | isConnected i k ih => exact ih _ (h _)
  | record d k ih => exact ih h.2.2
  | isVarying | contexts | enter | draw | kept | keep => exact h.elim

theorem Plain.steady {p : Program α} (h : p.Plain fun _ => True) :
    Steady (.fixed values connected) fun _ : ι => p := by
  obtain ⟨a, comes⟩ := h.comes
  exact ⟨a, fun _ => comes⟩

end
end Program

namespace Block
open Program

section
variable {ι : Type} {values : Nat → Value} {connected : Nat → Bool}

theorem steady_vertexEntry (id : BlockId) (target : Attribute) (outer : ι → Contexts)
    (entries : List (Option (List Float32))) (vertex : Nat) :
    Steady (.fixed values connected) fun i =>
      vertexEntry id target (outer i) entries vertex := by
  refine (Steady.setContexts _).bind fun _ => ((plain_value 1).bind fun v => ?_).steady
  cases target.components? v with
  | some xs => exact plain_pure _
  | none =>
    exact ((plain_report (by trivial) (by trivial)).bind fun _ => plain_pure _).ite
      (plain_pure _) _

theorem steady_setAttribute (id : BlockId) (target : Attribute) :
    Steady (.fixed values connected) fun _ : ι => setAttributeProgram id target := by
  refine Steady.inScope ((plain_mesh? 0).steady.bind fun m => ?_)
  cases m with
  | none => exact .pure _
  | some incoming =>
    refine Steady.ite (.pure _) ?_ _
    refine (plain_connected 1).steady.bind fun b => Steady.ite (.pure _) ?_ _
    refine Steady.currentContexts ?_
    exact (Steady.forEach (steady_vertexEntry id target _) _ _).bind fun _ => .pure _

theorem comes_place (inputs : PlacementInputs) (point : Option Space.Vec3) (copies : List Mesh)
    (nothing : (((values inputs.item).coerce? .geometry).bind Value.mesh?).any Mesh.hasPositions
      = false) :
    (place inputs point copies).Comes (.fixed values connected) copies := by
  refine (comes_mesh? inputs.item).bind ?_
  revert nothing
  cases ((values inputs.item).coerce? .geometry).bind Value.mesh? with
  | none => exact fun _ => comes_pure _
  | some m =>
    intro nothing
    have bare : m.hasPositions = false := by simpa using nothing
    simp only [bare]
    exact comes_pure _

theorem steady_placeAt (inputs : PlacementInputs) (outer : ι → Contexts) (step : Execution)
    (point : Option Space.Vec3) (copies : List Mesh) :
    Steady (.fixed values connected) fun i => placeAt inputs (outer i) step point copies :=
  (Steady.setContexts _).bind fun _ => (plain_place inputs point copies).steady

/-- The loop of a block that places instances, apart from when it is left out. -/
def instantiateLoop (id : BlockId) (count : Nat) : Program Value := do
  let outer ← currentContexts
  let copies ← forEach
    (fun copies i => placeAt loopInputs outer (Execution.atStep id i) none copies)
    (List.range count) []
  joined copies.reverse

theorem steady_instantiateLoop (id : BlockId) (count : Nat) :
    Steady (.fixed values connected) fun _ : ι => instantiateLoop id count := by
  refine Steady.currentContexts ?_
  exact (Steady.forEach (fun copies i => steady_placeAt _ _ _ _ _) _ _).bind fun _ =>
    (plain_joined _).steady

theorem comes_instantiateLoop (id : BlockId) (count : Nat)
    (nothing : (((values 0).coerce? .geometry).bind Value.mesh?).any Mesh.hasPositions = false) :
    (instantiateLoop id count).Comes (.fixed values connected) .null := by
  intro c
  have step : ∀ i : Nat, (placeAt loopInputs c (Execution.atStep id i) none []).Comes
      (.fixed values connected) [] := fun i =>
    (comes_setContexts _).bind (comes_place loopInputs none [] nothing)
  have loop : (forEach (fun copies i =>
      placeAt loopInputs c (Execution.atStep id i) none copies) (List.range count) []).Comes
        (.fixed values connected) [] := comes_forEach step _
  exact loop.bind (comes_pure Value.null) c

theorem always_neverPlaces (i : Nat) (c : Contexts) :
    (neverPlaces i).Always (.fixed values connected)
      (fun b _ => b = true →
        (((values i).coerce? .geometry).bind Value.mesh?).any Mesh.hasPositions = false) c := by
  have rest : ∀ varying : Bool, (if varying then return false
      else return !((← mesh? i).any Mesh.hasPositions) : Program Bool).Always
        (.fixed values connected) (fun b _ => b = true →
          (((values i).coerce? .geometry).bind Value.mesh?).any Mesh.hasPositions = false) c := by
    intro varying
    cases varying with
    | true => exact fun h => by cases h
    | false =>
      refine (always_bind ..).2 ((comes_mesh? i c).mono fun m c' same => ?_)
      subst same
      intro h
      simpa using h
  exact fun varying => rest varying

theorem steady_instantiate (id : BlockId) :
    Steady (.fixed values connected) fun _ : ι => instantiateProgram id := by
  refine Steady.inScope ((plain_countInput 1 1).steady.bind fun count => ?_)
  refine Steady.ite (.pure _) ?_ _
  have shape : ∀ v, (instantiateLoop id count).Comes (.fixed values connected) v →
      ((((values 0).coerce? .geometry).bind Value.mesh?).any Mesh.hasPositions = false →
        v = .null) →
      (do if ← neverPlaces loopInputs.item then return .null else instantiateLoop id count :
        Program Value).Comes (.fixed values connected) v := by
    intro v loop nothing c
    refine (always_bind ..).2 ((always_neverPlaces 0 c).mono fun b c' left => ?_)
    cases b with
    | true => exact (nothing (left rfl)).symm
    | false => exact loop c'
  cases nothing : (((values 0).coerce? .geometry).bind Value.mesh?).any Mesh.hasPositions with
  | true =>
    have steady : Steady (.fixed values connected) fun _ : Unit => instantiateLoop id count :=
      steady_instantiateLoop id count
    obtain ⟨v, loop⟩ := steady
    exact ⟨v, fun _ => shape v (loop ()) fun h => by rw [nothing] at h; cases h⟩
  | false => exact ⟨.null, fun _ => shape .null (comes_instantiateLoop id count nothing) fun _ => rfl⟩

end
end Block

def Supply.Gives (A : Answers) (v : Value) : Supply → Prop
  | .value w => w = v
  | .onRead program => program.Comes A v

structure Plan.Realizes (A : Answers) (outputs : Nat → Value) (result : Option Value)
    (plan : Plan) : Prop where
  supplies : ∀ entry ∈ plan.outputs, entry.2.Gives A (outputs entry.1)
  others : ∀ index, (∀ supply, (index, supply) ∉ plan.outputs) → outputs index = .null
  result : plan.result = result

/-- What a plan gives an output where every input has one value. -/
def Plan.valueAt (values : Nat → Value) (connected : Nat → Bool) (plan : Plan) (index : Nat) :
    Value :=
  match plan.outputs.lookup index with
  | none => .null
  | some (.value v) => v
  | some (.onRead program) => program.settled values connected {}

section
variable {values : Nat → Value} {connected : Nat → Bool}

theorem Program.Comes.settled {α : Type} {p : Program α} {a : α}
    (h : p.Comes (.fixed values connected) a) (c : Contexts) :
    p.settled values connected c = a := by
  obtain ⟨-, same⟩ := (h c).settled
  exact same

theorem Program.Steady.comes_settled {α : Type} {p : Program α}
    (h : Steady (.fixed values connected) fun _ : Unit => p) :
    p.Comes (.fixed values connected) (p.settled values connected {}) := by
  obtain ⟨a, comes⟩ := h
  rw [(comes ()).settled]
  exact comes ()

theorem Plan.Realizes.valueAt_eq {outputs : Nat → Value} {result : Option Value} {plan : Plan}
    (h : plan.Realizes (.fixed values connected) outputs result) :
    plan.valueAt values connected = outputs := by
  funext index
  rw [Plan.valueAt]
  cases found : plan.outputs.lookup index with
  | none =>
    refine (h.others index fun supply mem => ?_).symm
    have := List.lookup_eq_none_iff.1 found _ mem
    simp at this
  | some supply =>
    obtain ⟨before, after, split, -⟩ := List.lookup_eq_some_iff.1 found
    have gives := h.supplies (index, supply) (by rw [split]; simp)
    cases supply with
    | value v => exact gives
    | onRead program => exact Program.Comes.settled gives {}

theorem Program.always_single {p : Program Value} {v : Value}
    (h : p.Comes (.fixed values connected) v) (everyRead : Bool) (c : Contexts) :
    (single everyRead p).Always (.fixed values connected)
      (fun plan _ => plan.Realizes (.fixed values connected) (fun i => if i = 0 then v else .null)
        none) c := by
  have realizes : ∀ supply : Supply, supply.Gives (.fixed values connected) v →
      Plan.Realizes (.fixed values connected) (fun i => if i = 0 then v else .null) none
        { outputs := [(0, supply)] } := by
    intro supply gives
    refine ⟨?_, ?_, rfl⟩
    · intro entry mem
      rw [List.mem_singleton] at mem
      subst mem
      exact gives
    · intro index away
      refine if_neg fun here => away supply ?_
      rw [here]
      exact List.mem_singleton_self _
  cases everyRead with
  | true => exact realizes (.onRead p) h
  | false =>
    refine (always_bind ..).2 ((always_bind ..).2 ((h c).mono fun w c' same => ?_))
    exact realizes (.value w) same

theorem Plan.realizes_onRead (programs : List (Program Value))
    (steady : ∀ p ∈ programs, Program.Steady (.fixed values connected) fun _ : Unit => p) :
    Plan.Realizes (.fixed values connected)
      (fun i => ((programs[i]?).map fun p => p.settled values connected {}).getD .null) none
      { outputs := programs.zipIdx.map fun (p, i) => (i, .onRead p) } where
  supplies := by
    intro entry mem
    obtain ⟨⟨p, i⟩, hp, rfl⟩ := List.mem_map.1 mem
    have found : programs[i]? = some p := List.mem_zipIdx_iff_getElem?.1 hp
    have comes := (steady p (List.mem_of_getElem? found)).comes_settled
    simpa [found, Supply.Gives] using comes
  others := by
    intro index away
    have none : programs[index]? = none := by
      rw [Option.eq_none_iff_forall_ne_some]
      intro p found
      exact away (.onRead p) (List.mem_map.2 ⟨(p, index), List.mem_zipIdx_iff_getElem?.2 found, rfl⟩)
    simp [none]
  result := rfl

end

namespace Block
open Program

/-- Blocks that neither draw random numbers nor look at the contexts. -/
def IsSteady : Block → Prop
  | input settings => settings.source = none
  | random _ | instantiateOnFaces _ | instantiateOnVertices .. | instantiateOnVolume .. | custom _ =>
    False
  | _ => True

instance : DecidablePred IsSteady
  | input settings => inferInstanceAs (Decidable (settings.source = none))
  | random _ | instantiateOnFaces _ | instantiateOnVertices .. | instantiateOnVolume .. | custom _ =>
    isFalse id
  | box _ | sphere _ | plane _ | cylinder _ | pointList _ | mesh .. | output | math _
  | vectorConverter | shift | scaling | rotation _ | matrixCompose | setAttribute .. | computeNormals _
  | transform _ | merge _ | info | instantiate _ => isTrue trivial

section
variable (values : Nat → Value) (connected : Nat → Bool)

def outputValue (b : Block) (id : BlockId) (name : String) : Nat → Value :=
  ((b.plan id name).settled values connected {}).valueAt values connected

def handedOver (b : Block) (id : BlockId) (name : String) : Option Value :=
  ((b.plan id name).settled values connected {}).result

theorem exists_realizes {b : Block} (h : b.IsSteady) (id : BlockId) (name : String) :
    ∃ outputs result, (b ≠ .output → result = none) ∧ ∀ everyRead c,
      ((b.withEveryRead everyRead).plan id name).Always (.fixed values connected)
        (fun plan _ => plan.Realizes (.fixed values connected) outputs result) c := by
  have flagged : ∀ p : Program Value, (Steady (.fixed values connected) fun _ : Unit => p) →
      ∃ outputs result, (b ≠ .output → result = none) ∧ ∀ everyRead c,
        (single everyRead p).Always (.fixed values connected)
          (fun plan _ => plan.Realizes (.fixed values connected) outputs result) c := by
    intro p steady
    exact ⟨_, none, fun _ => rfl, always_single steady.comes_settled⟩
  have unflagged : ∀ p : Program Value, (Steady (.fixed values connected) fun _ : Unit => p) →
      ∃ outputs result, (b ≠ .output → result = none) ∧ ∀ (_ : Bool) c,
        (single true p).Always (.fixed values connected)
          (fun plan _ => plan.Realizes (.fixed values connected) outputs result) c := by
    intro p steady
    exact ⟨_, none, fun _ => rfl, fun _ => always_single steady.comes_settled true⟩
  have constant : ∀ v : Value, ∃ outputs result, (b ≠ .output → result = none) ∧ ∀ (_ : Bool) c,
      (fixed v).Always (.fixed values connected)
        (fun plan _ => plan.Realizes (.fixed values connected) outputs result) c := by
    intro v
    exact ⟨_, none, fun _ => rfl, fun _ => always_single (comes_pure v) false⟩
  have listed : ∀ programs : List (Program Value),
      (∀ p ∈ programs, Steady (.fixed values connected) fun _ : Unit => p) →
      ∃ outputs result, (b ≠ .output → result = none) ∧ ∀ (_ : Bool) c,
        (pure { outputs := programs.zipIdx.map fun (p, i) => (i, .onRead p) } : Program Plan).Always
          (.fixed values connected)
          (fun plan _ => plan.Realizes (.fixed values connected) outputs result) c := by
    intro programs steady
    exact ⟨_, none, fun _ => rfl, fun _ _ => Plan.realizes_onRead programs steady⟩
  cases b with
  | box _ => exact flagged _ (plain_box id).steady
  | sphere _ => exact flagged _ (plain_sphere id).steady
  | plane _ => exact flagged _ (plain_plane id).steady
  | cylinder _ => exact flagged _ (plain_cylinder id).steady
  | pointList points => exact constant _
  | mesh data reverseWinding => exact constant _
  | input settings =>
    obtain ⟨kind, value, source⟩ := settings
    cases (h : source = none)
    exact constant value
  | output =>
    refine ⟨fun _ => .null, some (values 0), fun h => absurd rfl h, fun _ c v same => ?_⟩
    subst same
    exact ⟨fun _ mem => (List.not_mem_nil mem).elim, fun _ _ => rfl, rfl⟩
  | math operation => exact unflagged _ (plain_math operation).steady
  | random _ => exact h.elim
  | vectorConverter =>
    refine listed (converterViews.map fun view => do return view (← combinedVector)) ?_
    intro p mem
    obtain ⟨view, -, rfl⟩ := List.mem_map.1 mem
    exact (plain_combinedVector.bind fun _ => plain_pure _).steady
  | shift => exact unflagged _ plain_shift.steady
  | scaling => exact unflagged _ plain_scaling.steady
  | rotation axis => exact unflagged _ (plain_rotation axis).steady
  | matrixCompose => exact unflagged _ plain_compose.steady
  | setAttribute target _ => exact flagged _ (steady_setAttribute id target)
  | computeNormals _ => exact flagged _ plain_computeNormals.steady
  | transform _ => exact flagged _ plain_transform.steady
  | merge _ => exact flagged _ plain_merge.steady
  | info =>
    refine listed [(do return .ofMesh? (← mesh? 0)), infoProgram (·.id.toNat),
      infoProgram Mesh.vertexCount, infoProgram Mesh.faceCount] ?_
    intro p mem
    simp only [List.mem_cons, List.not_mem_nil, or_false] at mem
    rcases mem with rfl | rfl | rfl | rfl
    · exact ((plain_mesh? 0).bind fun _ => plain_pure _).steady
    all_goals exact (plain_infoProgram _).steady
  | instantiate _ => exact flagged _ (steady_instantiate id)
  | instantiateOnFaces _ => exact h.elim
  | instantiateOnVertices _ _ => exact h.elim
  | instantiateOnVolume _ _ => exact h.elim
  | custom _ => exact h.elim

theorem exists_withEveryRead_eq (b : Block) : ∃ everyRead, b.withEveryRead everyRead = b := by
  cases b with
  | box e | sphere e | plane e | cylinder e | setAttribute _ e | computeNormals e | transform e
  | merge e | instantiate e | instantiateOnFaces e | instantiateOnVertices e _
  | instantiateOnVolume e _ => exact ⟨e, rfl⟩
  | _ => exact ⟨true, rfl⟩

theorem IsSteady.plan {b : Block} (h : b.IsSteady) (id : BlockId) (name : String)
    (everyRead : Bool) (c : Contexts) :
    ((b.withEveryRead everyRead).plan id name).Always (.fixed values connected)
      (fun plan _ => plan.Realizes (.fixed values connected)
        (b.outputValue values connected id name) (b.handedOver values connected id name)) c := by
  obtain ⟨outputs, result, -, realizes⟩ := exists_realizes values connected h id name
  obtain ⟨own, same⟩ := b.exists_withEveryRead_eq
  have settled := realizes own {}
  rw [same] at settled
  obtain ⟨-, settled⟩ := settled.settled
  rw [outputValue, handedOver, settled.valueAt_eq, settled.result]
  exact realizes everyRead c

end
end Block
end MeshFlow
