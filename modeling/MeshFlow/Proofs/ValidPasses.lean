import MeshFlow.Proofs.Validity
import MeshFlow.Proofs.Yielding

set_option autoImplicit false

/-!
# Passes that yield valid geometry

A graph of standard blocks yields valid geometry from valid geometry: every mesh that is read of any
output, at any moment of any pass, and every mesh that a build comes to passes validation, if the
meshes that the graph was given do. It may be given some by mesh blocks, by input blocks and as
literals; none of them is looked at before the end. Nothing else goes wrong unless some mesh has too
many vertices for its indices to fit, and then no geometry is seen at all.
-/
namespace MeshFlow

theorem Facts.Lasting.ends_resultValue {F : Facts} {g : Graph} (lasting : F.Lasting g)
    (wired : g.Wired) (acyclic : g.Acyclic) (id : BlockId) (node : Node) (config : BuildConfig) :
    Ends (g.resultValue id node) (.start config) fun v s =>
      (v = .null ∨ (∃ b, F.result b (some v)) ∨ ∃ c, F.output (.output id 0) c v) ∧
        (Session.start config).NotesOnly F.overflows s := by
  have serves := Graph.supplier_serves lasting wired acyclic
  have low : g.height id < g.size + 1 := Nat.lt_succ_of_le (wired.height_le_size id)
  rw [Graph.resultValue, ends_bind]
  refine (serves.build id _ low (.start F g config)).mono fun _ s keeps => ?_
  simp only [ends_bind, ends_get]
  cases hr : s.result with
  | some v => exact (ends_pure ..).2 ⟨.inr (.inl (keeps.sound.result v hr)), keeps.notes⟩
  | none =>
    cases node.outputs.isEmpty with
    | true => exact (ends_pure ..).2 ⟨.inl rfl, keeps.notes⟩
    | false =>
      refine (serves.read (.output id 0) s low keeps.sound).mono ?_
      rintro v t ⟨keeps', read⟩
      exact ⟨.inr (.inr ⟨_, read⟩), keeps.notes.trans keeps'.notes⟩

namespace Graph
variable {g : Graph}

/-- The meshes that a graph has been given pass validation: those of mesh blocks, those that input
blocks hold, and the literals of inputs for geometry that are optional and not connected. -/
structure GivenValid (g : Graph) : Prop where
  meshes : ∀ id n m reverseWinding, g.node? id = some n → n.block = .mesh (some m) reverseWinding →
    m.validate = .ok ()
  inputs : ∀ id n settings m, g.node? id = some n → n.block = .input settings →
    settings.source = none → settings.value = .geometry m → m.validate = .ok ()
  literals : ∀ id n s m, g.node? id = some n → s ∈ n.inputs → s.spec.kind = .geometry →
    s.spec.isOptional → s.peer = none → s.default? = some (.geometry m) → m.validate = .ok ()

theorem GivenValid.admits (given : g.GivenValid) (declares : g.Declares Block.IsStandard)
    {id : BlockId} {n : Node} (hn : g.node? id = some n) (complete : n.missingInputs.isEmpty) :
    n.block.Admits
      ((Facts.ofValues Mesh.Valid (2 ^ 32 < ·) fun _ => Value.Holds Mesh.Valid).answers g id)
      Mesh.Valid fun _ => Value.Holds Mesh.Valid := by
  constructor
  case declared => exact fun i spec _ _ v conforms => conforms.holds
  case taken =>
    rintro - v (rfl | ⟨c, left, -, -, components⟩)
    · exact Value.holds_null
    · rintro m rfl
      cases components
  case kept => exact fun _ _ => Iff.rfl
  case given =>
    exact fun settings hb literal m hm =>
      (m.validate_eq_ok_iff).1 (given.inputs id n settings m hn hb literal hm)
  case found => exact fun settings source _ _ v conforms => conforms.holds
  case fed =>
    intro i spec hs geometry c v known
    rcases Facts.input_cases hn known with rfl | ⟨o, -, holds⟩ | ⟨s, here, free, -, literal⟩
    · exact Value.holds_null
    · exact holds
    · rintro m rfl
      have declared := declares.inputSpec hn here
      rw [hs] at declared
      cases declared
      have mem := List.mem_of_getElem? here
      have optional : s.spec.isOptional = true := by
        by_contra needed
        have fed := Node.peer_of_missingInputs complete mem (Bool.eq_false_iff.2 needed)
        rw [free] at fed
        cases fed
      exact (m.validate_eq_ok_iff).1 (given.literals id n s m hn mem geometry optional free literal)
  case data =>
    exact fun m reverseWinding hb =>
      (m.validate_eq_ok_iff).1 (given.meshes id n m reverseWinding hn hb)

/-- In a graph of standard blocks that has been given valid meshes alone, every mesh that is read at
any moment of a pass passes validation, whatever is read and under whatever contexts; and every
build of the graph, if it has an output block, ends with no geometry or with geometry that passes
validation. It takes more than 2³² vertices in one mesh for this to be cut short. -/
theorem ReachableWith.geometry_valid (h : g.ReachableWith Block.IsStandard)
    (given : g.GivenValid) :
    (∀ s, g.InPass s → ∀ p, Ends (g.supplier.read p) s fun v s' =>
      (∀ n, .overflow n ∈ s'.diagnostics → .overflow n ∈ s.diagnostics ∨ 2 ^ 32 < n) ∧
      (s'.isLost = false → ∀ m, v = .geometry m → m.validate = .ok ())) ∧
    ∀ config, g.output.isSome → ∃ outcome, g.build config = .ok outcome ∧
      (∀ n, .overflow n ∈ outcome.diagnostics → 2 ^ 32 < n) ∧
      (outcome.isLost = false → ∀ m, outcome.geometry = some m → m.validate = .ok ()) := by
  have wired := Reachable.wired (ReachableWith.reachable h)
  have acyclic := Reachable.acyclic (ReachableWith.reachable h)
  have declares := ReachableWith.declares (fun _ standard => standard) h
  have lasting := Facts.lasting_ofValues (R := fun _ => Value.Holds Mesh.Valid) declares
    Mesh.closed_valid (fun _ => Value.holds_null)
    fun id n hn complete => given.admits declares hn complete
  refine ⟨fun s underway p => ?_, fun config output => ?_⟩
  · refine (underway.read_ends lasting wired acyclic p).mono fun v s' ⟨keeps, holds⟩ => ?_
    exact ⟨fun n mem => keeps.notes _ mem, fun _ m hm => (m.validate_eq_ok_iff).2 (holds m hm)⟩
  · obtain ⟨id, output⟩ := Option.isSome_iff_exists.1 output
    obtain ⟨node, hn⟩ := Option.isSome_iff_exists.1 (wired.output_exists id output)
    obtain ⟨outcome, v, s, built, ⟨fact, notes⟩, same, lost⟩ := build_of_resultValue output hn
      (lasting.ends_resultValue wired acyclic id node config)
    have holds : v.Holds Mesh.Valid := by
      rcases fact with rfl | ⟨_, result⟩ | ⟨_, read⟩
      · exact Value.holds_null
      · exact result v rfl
      · exact read
    refine ⟨outcome, built, fun n mem => ?_, fun _ m hm => (m.validate_eq_ok_iff).2 (holds m ?_)⟩
    · exact (notes _ ((lost n).1 mem)).resolve_left List.not_mem_nil
    · rw [hm] at same
      cases v <;> cases same
      rfl

def handing (block : Block) : Graph :=
  [.add "source" block, .add "result" .output, .connectUnchecked (.output 0 0) (.input 1 0),
    .setOutput 1].foldl Edit.apply .empty

theorem reachable_handing {sort : Block → Prop} {block : Block} (source : sort block)
    (result : sort .output) : (handing block).ReachableWith sort := by
  refine ReachableBy.foldl .empty _ ⟨⟨?_, source⟩, ⟨?_, result⟩, ⟨trivial, trivial⟩,
    ⟨trivial, trivial⟩, trivial⟩
  · change (0 : BlockId) < BlockId.last
    decide
  · change (1 : BlockId) < BlockId.last
    decide

theorem declares_handing (block : Block) (standard : block.IsStandard) :
    (handing block).Declares fun b => b = block ∨ b = .output := by
  refine ReachableWith.declares ?_ (reachable_handing (.inl rfl) (.inr rfl))
  rintro b (rfl | rfl)
  · exact standard
  · trivial

theorem block_handing {block : Block} (standard : block.IsStandard) {id : BlockId} {n : Node}
    (hn : (handing block).node? id = some n) : n.block = block ∨ n.block = .output :=
  (declares_handing block standard).sort id n hn

def flag : Mesh where
  positions := [0, 0, 0, 1, 0, 0, 0, 1, 0]
  indices := some [0, 1, 2]

def loose : Mesh where
  positions := [0, 0, 0]
  indices := some [5, 6, 7]

/-- An input block hands on what it holds, valid or not. -/
theorem invalid_handing_loose :
    (handing (.input (.ofValue (.geometry loose)))).ReachableWith Block.IsStandard ∧
      (∀ id n m reverseWinding, (handing (.input (.ofValue (.geometry loose)))).node? id = some n →
        n.block = .mesh (some m) reverseWinding → m.validate = .ok ()) ∧
      ∃ outcome, (handing (.input (.ofValue (.geometry loose)))).build {} = .ok outcome ∧
        outcome.isLost = false ∧ outcome.geometry = some loose ∧
        loose.validate = .error (.indexOutOfRange 5 1) := by
  refine ⟨reachable_handing trivial trivial, fun id n m reverseWinding hn hb => ?_, ?_⟩
  · rcases block_handing (by trivial) hn with input | output
    · rw [hb] at input
      cases input
    · rw [hb] at output
      cases output
  · exact ⟨_, rfl, rfl, rfl, rfl⟩

theorem given_handing_flag : (handing (.mesh (some flag) true)).GivenValid where
  meshes id n m reverseWinding hn hb := by
    rcases block_handing (by trivial) hn with mesh | output
    · rw [hb] at mesh
      cases mesh
      rfl
    · rw [hb] at output
      cases output
  inputs id n settings m hn hb := by
    rcases block_handing (by trivial) hn with mesh | output
    · rw [hb] at mesh
      cases mesh
    · rw [hb] at output
      cases output
  literals id n s m hn mem _ optional := by
    have declares := declares_handing (.mesh (some flag) true) trivial
    have spec : s.spec ∈ n.block.inputSpecs := by
      rw [← (declares.specs id n hn).1]
      exact List.mem_map_of_mem mem
    -- Mesh blocks have no inputs, and the one of output blocks has to be connected.
    rcases declares.sort id n hn with mesh | output
    · rw [mesh] at spec
      cases spec
    · rw [output] at spec
      rw [List.mem_singleton.1 spec] at optional
      cases optional

theorem valid_handing_flag :
    (∀ s, (handing (.mesh (some flag) true)).InPass s → ∀ p,
      Ends ((handing (.mesh (some flag) true)).supplier.read p) s fun v s' =>
        (∀ n, .overflow n ∈ s'.diagnostics → .overflow n ∈ s.diagnostics ∨ 2 ^ 32 < n) ∧
        (s'.isLost = false → ∀ m, v = .geometry m → m.validate = .ok ())) ∧
      ∃ outcome m, (handing (.mesh (some flag) true)).build {} = .ok outcome ∧
        outcome.geometry = some m ∧ m.validate = .ok () := by
  have reached : (handing (.mesh (some flag) true)).ReachableWith Block.IsStandard :=
    reachable_handing trivial trivial
  obtain ⟨reads, builds⟩ := ReachableWith.geometry_valid reached given_handing_flag
  obtain ⟨outcome, built, -, valid⟩ := builds {} rfl
  have known : ((handing (.mesh (some flag) true)).build {}).map
      (fun outcome => (outcome.geometry.isSome, outcome.isLost)) = .ok (true, false) := rfl
  rw [built] at known
  obtain ⟨some, held⟩ := Prod.mk.inj (Except.ok.inj known)
  obtain ⟨m, hm⟩ := Option.isSome_iff_exists.1 some
  exact ⟨reads, outcome, m, built, hm, valid held m hm⟩

end Graph
end MeshFlow
