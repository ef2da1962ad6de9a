import MeshFlow.Proofs.Fitting
import MeshFlow.Proofs.Kinds

set_option autoImplicit false

/-!
# What passes yield

A claim about the values of all outputs lasts through a pass if it allows for null and, block by
block, for what the block declares, what it derives and what it holds, as far as its inputs keep to
the claim. The meshes that go in and out may be of any sort that blocks do not lead out of.
-/
namespace MeshFlow

def Supply.Ensures (A : Answers) (N : Nat → Prop) (Q : Value → Prop) : Supply → Prop
  | .value v => Q v
  | .onRead program => program.Ensures A N Q

/-- Every output yields values of its sort, and a mesh handed on as the result is of a sort. -/
structure Plan.Ensures (A : Answers) (N : Nat → Prop) (P : Mesh → Prop) (Q : Nat → Value → Prop)
    (plan : Plan) : Prop where
  outputs : ∀ entry ∈ plan.outputs, entry.2.Ensures A N (Q entry.1)
  result : ∀ v ∈ plan.result, v.Holds P

section
variable {A : Answers} {N : Nat → Prop} {P : Mesh → Prop} {Q : Nat → Value → Prop}

theorem Plan.ensures_onRead {ι : Type} (index : ι → Nat) (program : ι → Program Value)
    (entries : List ι) (h : ∀ e ∈ entries, (program e).Ensures A N (Q (index e))) :
    Plan.Ensures A N P Q { outputs := entries.map fun e => (index e, .onRead (program e)) } where
  outputs entry mem := by
    obtain ⟨e, he, rfl⟩ := List.mem_map.1 mem
    exact h e he
  result _ h := by cases h

namespace Program

theorem Ensures.supply {Q : Value → Prop} {p : Program Value} (h : p.Ensures A N Q)
    (everyRead : Bool) : (supply everyRead p).Ensures A N (Supply.Ensures A N Q) := by
  cases everyRead with
  | true => exact ensures_pure (a := Supply.onRead p) h
  | false => exact h.bind fun v holds => ensures_pure (a := Supply.value v) holds

theorem Ensures.single {p : Program Value} (h : p.Ensures A N (Q 0)) (everyRead : Bool) :
    (single everyRead p).Ensures A N (Plan.Ensures A N P Q) := by
  refine (h.supply everyRead).bind fun supply holds => ensures_pure ⟨fun entry mem => ?_, ?_⟩
  · rw [List.mem_singleton.1 mem]
    exact holds
  · exact fun _ none => by cases none

end Program

namespace Block
open Program

/-- The values of a block's outputs are of sorts that allow for all that the block can yield, given
what is known of its inputs. -/
structure Admits (b : Block) (A : Answers) (P : Mesh → Prop) (Q : Nat → Value → Prop) : Prop where
  declared : ∀ (i : Nat) (spec : SocketSpec), b.outputSpecs[i]? = some spec →
    spec.kind.isMeta = false → ∀ v : Value, v.Conforms P spec.kind → Q i v
  taken : b.Derives → ∀ v, TakesAfter A v → Q 0 v
  kept : ∀ key v, A.kept key v ↔ Q 0 v
  given : ∀ settings, b = input settings → settings.source = none → Q 0 settings.value
  found : ∀ settings source, b = input settings → settings.source = some source →
    ∀ v : Value, v.Conforms P source.kind → Q 0 v
  fed : ∀ (i : Nat) (spec : SocketSpec), b.inputSpecs[i]? = some spec → spec.kind = .geometry →
    ∀ c v, A.input i c v → v.Holds P
  data : ∀ m reverseWinding, b = mesh (some m) reverseWinding → P m

theorem ensures_fixed {v : Value} (h : Q 0 v) : (fixed v).Ensures A N (Plan.Ensures A N P Q) := by
  refine ensures_pure ⟨fun entry mem => ?_, fun _ none => by cases none⟩
  rw [List.mem_singleton.1 mem]
  exact h

theorem ensures_converter (h : vectorConverter.Admits A P Q) : converterPlan.Ensures A N P Q := by
  have views : ∀ entry ∈ converterViews.zipIdx, ∀ v, Q entry.2 (entry.1 v) := by
    intro entry mem v
    simp only [converterViews, List.zipIdx_cons, List.zipIdx_nil, List.mem_cons, List.not_mem_nil,
      or_false] at mem
    rcases mem with rfl | rfl | rfl | rfl | rfl | rfl | rfl <;>
      exact h.declared _ _ rfl rfl _ (Value.conforms_of_kind rfl (by decide))
  exact Plan.ensures_onRead Prod.snd
    (fun entry : (Space.Vec4 → Value) × Nat => do return entry.1 (← combinedVector)) _
    fun entry mem => plain_combinedVector.then fun v => ensures_pure (views entry mem v)

theorem ensures_info (h : info.Admits A P Q) : infoPlan.Ensures A N P Q where
  outputs entry mem := by
    have numbers : ∀ (i : Nat) (spec : SocketSpec) (number : Mesh → Nat),
        info.outputSpecs[i]? = some spec → spec.kind = .int →
        (infoProgram number).Ensures A N (Q i) := fun i spec number hs int =>
      (ensures_infoProgram number).mono fun v conforms =>
        h.declared i spec hs (by rw [int]; rfl) v (int ▸ conforms)
    simp only [infoPlan, List.mem_cons, List.not_mem_nil, or_false] at mem
    rcases mem with rfl | rfl | rfl | rfl
    · exact (ensures_passOn (h.fed 0 _ rfl rfl)).mono fun v => h.declared 0 _ rfl rfl v
    · exact numbers 1 _ _ rfl rfl
    · exact numbers 2 _ _ rfl rfl
    · exact numbers 3 _ _ rfl rfl
  result _ h := by cases h

theorem IsStandard.ensures_plan {b : Block} (standard : b.IsStandard) (closed : Mesh.Closed P N)
    (h : b.Admits A P Q) (id : BlockId) (name : String) :
    (b.plan id name).Ensures A N (Plan.Ensures A N P Q) := by
  -- All blocks with one output that declares its kind go the same way.
  have single : ∀ {p : Program Value} {spec : SocketSpec}, b.outputSpecs[0]? = some spec →
      spec.kind.isMeta = false → p.Ensures A N (Value.Conforms P spec.kind) →
      ∀ everyRead, (Program.single everyRead p).Ensures A N (Plan.Ensures A N P Q) :=
    fun hs own ensures everyRead => (ensures.mono fun v => h.declared 0 _ hs own v).single everyRead
  cases b with
  | box e => exact single rfl rfl (ensures_box closed id) e
  | sphere e => exact single rfl rfl (ensures_sphere closed id) e
  | plane e => exact single rfl rfl (ensures_plane closed id) e
  | cylinder e => exact single rfl rfl (ensures_cylinder closed id) e
  | pointList points =>
    exact ensures_fixed (h.declared 0 _ rfl rfl _ (conforms_pointListValue closed id points))
  | mesh data reverseWinding =>
    refine ensures_fixed (h.declared 0 _ rfl rfl _ (conforms_meshValue closed ?_ reverseWinding))
    rintro m rfl
    exact h.data m reverseWinding rfl
  | input settings =>
    cases source : settings.source with
    | none => simpa only [plan, source] using ensures_fixed (h.given settings rfl source)
    | some s =>
      have ensures : (contextual s).Ensures A N (Q 0) := (ensures_contextual s).mono fun v holds => by
        obtain ⟨c, rfl⟩ := holds
        exact h.found settings s rfl source _ (c.conforms_lookup s)
      simpa only [plan, source] using ensures.single true
  | output =>
    refine fun c => ⟨fun v known => ⟨fun _ mem => (List.not_mem_nil mem).elim, ?_⟩,
      fun _ _ => True.intro⟩
    rintro w ⟨⟩
    exact h.fed 0 _ rfl rfl c v known
  | math operation => exact ((ensures_math operation).mono (h.taken trivial)).single true
  | random lock => exact (ensures_random (h.taken trivial) h.kept lock).single true
  | vectorConverter => exact ensures_pure (ensures_converter h)
  | shift => exact single rfl rfl ensures_shift true
  | scaling => exact single rfl rfl ensures_scaling true
  | rotation axis => exact single rfl rfl (ensures_rotation axis) true
  | matrixCompose => exact single rfl rfl ensures_compose true
  | setAttribute target e =>
    exact single rfl rfl (ensures_setAttribute closed id target (h.fed 0 _ rfl rfl)) e
  | computeNormals e => exact single rfl rfl (ensures_computeNormals closed (h.fed 0 _ rfl rfl)) e
  | transform e => exact single rfl rfl (ensures_transform closed (h.fed 0 _ rfl rfl)) e
  | merge e =>
    refine single rfl rfl (ensures_merge closed fun i small => ?_) e
    interval_cases i <;> exact h.fed _ _ rfl rfl
  | info => exact ensures_pure (ensures_info h)
  | instantiate e => exact single rfl rfl (ensures_instantiate closed id (h.fed 0 _ rfl rfl)) e
  | instantiateOnFaces e =>
    exact single rfl rfl (ensures_instantiateOnFaces closed id (h.fed 1 _ rfl rfl)) e
  | instantiateOnVertices e removeDuplicates =>
    exact single rfl rfl
      (ensures_instantiateOnVertices closed id (h.fed 1 _ rfl rfl) removeDuplicates) e
  | instantiateOnVolume e maxAttempts =>
    exact single rfl rfl (ensures_instantiateOnVolume closed id (h.fed 1 _ rfl rfl) maxAttempts) e
  | custom block => exact standard.elim

end Block
end

section
variable {g : Graph} {id : BlockId} {n : Node} {s : Socket}

theorem Graph.Declares.mono {sort sort' : Block → Prop} (h : g.Declares sort)
    (le : ∀ b, sort b → sort' b) : g.Declares sort' :=
  ⟨fun id n hn => le _ (h.sort id n hn), h.specs⟩

theorem Graph.Declares.inputSpec {sort : Block → Prop} (h : g.Declares sort)
    (hn : g.node? id = some n) {i : Nat} (hs : n.inputs[i]? = some s) :
    n.block.inputSpecs[i]? = some s.spec := by
  rw [← (h.specs id n hn).1, List.getElem?_map, hs]
  rfl

theorem Node.peer_of_missingInputs (complete : n.missingInputs.isEmpty) (mem : s ∈ n.inputs)
    (needed : s.spec.isOptional = false) : s.peer.isSome := by
  rw [List.isEmpty_iff, Node.missingInputs, List.filter_eq_nil_iff] at complete
  simpa [needed, Option.isSome_iff_ne_none] using complete s mem

theorem Facts.input_cases {F : Facts} (hn : g.node? id = some n) {i : Nat} {c : Contexts} {v : Value}
    (known : F.input g (.input id i) c v) :
    v = .null ∨ (∃ o, g.peer? (.input id i) = some o ∧ F.output o c v) ∨
      ∃ s, n.inputs[i]? = some s ∧ s.peer = none ∧ g.peer? (.input id i) = none ∧
        s.default? = some v := by
  unfold Facts.input at known
  have socket : g.socket? (.input id i) = n.inputs[i]? := by
    rw [Graph.socket?, SocketId.input, hn]
    rfl
  rw [Graph.peer?]
  rw [socket] at known ⊢
  cases hs : n.inputs[i]? with
  | none =>
    rw [hs] at known
    exact .inl known
  | some s =>
    rw [hs] at known
    rw [Option.bind_some]
    cases peer : s.peer with
    | some o =>
      simp only [peer] at known
      exact .inr (.inl ⟨o, rfl, known⟩)
    | none =>
      simp only [peer] at known
      cases literal : s.default? with
      | none =>
        rw [literal] at known
        exact .inl known
      | some w =>
        rw [literal] at known
        exact .inr (.inr ⟨s, rfl, peer, rfl, by rw [known, literal]; rfl⟩)

end

/-- The claim that outputs yield values of their sorts, that meshes handed on as the result are of a
sort, and that numbers of vertices are where an index does not fit. -/
def Facts.ofValues (P : Mesh → Prop) (N : Nat → Prop) (R : SocketId → Value → Prop) : Facts where
  output p _ := R p
  kept id _ := R (.output id 0)
  result _ r := ∀ v ∈ r, v.Holds P
  overflows := N

theorem Facts.lasting_ofValues {P : Mesh → Prop} {N : Nat → Prop} {R : SocketId → Value → Prop}
    {g : Graph} (declares : g.Declares Block.IsStandard) (closed : Mesh.Closed P N)
    (null : ∀ p, R p .null)
    (admits : ∀ id n, g.node? id = some n → n.missingInputs.isEmpty →
      n.block.Admits ((ofValues P N R).answers g id) P fun i => R (.output id i)) :
    (ofValues P N R).Lasting g where
  null p _ := null p
  notes id n hn complete c :=
    ((declares.sort id n hn).ensures_plan closed (admits id n hn complete) id n.name c).2
  planned id n hn complete c := by
    have ensures := (declares.sort id n hn).ensures_plan closed (admits id n hn complete) id n.name
    refine (ensures c).1.mono fun plan _ holds => ⟨fun entry mem => ?_, fun v hv w hw => ?_⟩
    · have supplies := holds.outputs entry mem
      obtain ⟨index, v | program⟩ := entry
      · exact ⟨fun _ => supplies, True.intro⟩
      · exact ⟨fun c => (supplies c).1, fun c => (supplies c).2⟩
    · cases hw
      exact holds.result v hv

end MeshFlow
