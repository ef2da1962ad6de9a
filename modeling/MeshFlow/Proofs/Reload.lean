import MeshFlow.Proofs.Rereading

set_option autoImplicit false

/-!
# Saving and loading

A reached graph comes back as it was saved where each block and each literal does. All that can stop
it is an input block that holds a value and does not know its kind.
-/
namespace MeshFlow

/-- An input has a literal that is written and read back, or was declared without one. -/
def Socket.Returns (s : Socket) : Prop :=
  (s.default? = none → s.spec.default? = none) ∧
    ∀ v, s.default? = some v → AllFinite v.floats ∧ v.Fits s.spec.kind

theorem Socket.value_save {s : Socket} {v : Value} (literal : s.default? = some v)
    (written : v.IsWritten) (finite : AllFinite v.floats) : s.save.value = some v.toJson := by
  rw [save, literal, Option.map_some, Option.filter_some, Value.isNull_toJson written finite]
  rfl

theorem Socket.Returns.reread {s : Socket} (h : s.Returns) (id : BlockId) :
    s.reread id = .ok s := by
  obtain ⟨declared, fits⟩ := h
  rw [Socket.reread]
  cases literal : s.default? with
  | none =>
    -- Loading leaves this input as declared, so it has to have been declared without a literal.
    have value : s.save.value = none := by rw [Socket.save, literal]; rfl
    rw [value, declared literal, ← literal]
  | some v =>
    obtain ⟨finite, fitting⟩ := fits v literal
    rw [Socket.value_save literal fitting.1 finite]
    simp only [Value.literal?_toJson fitting finite]
    rw [← literal]

/-- A block that comes back as it is saved, as far as its own records go. -/
structure Node.Returns (n : Node) : Prop where
  made : n.block.Made
  finite : AllFinite n.block.floats
  noGeometry : n.block.HoldsNoGeometry
  literals : ∀ s ∈ n.inputs, s.Returns

/-- How an input block is refused that holds a value and does not know its kind. -/
def InputBlock.refusal (settings : InputBlock) : CreateError :=
  .properties (.notALiteral settings.value.toJson settings.kind)

namespace Node.Returns
variable {n : Node}

theorem reread (h : n.Returns) (typed : n.block.IsTyped) (id : BlockId) : n.reread id = .ok n := by
  rw [Node.reread_eq_ok_iff h.made.isStandard]
  refine ⟨n.block, n.inputs, ?_, List.forall₂_same.2 fun s mem => (h.literals s mem).reread id, rfl⟩
  exact Block.usual_withProperties h.made h.finite h.noGeometry typed

theorem reread_error (h : n.Returns) {settings : InputBlock} (input : n.block = .input settings)
    (untyped : ¬ n.block.IsTyped) (id : BlockId) :
    n.reread id = .error (.create settings.refusal) := by
  have finite := h.finite
  have noGeometry := h.noGeometry
  rw [input] at finite noGeometry untyped
  have refused := Block.inputSettings_of_not_isTyped finite noGeometry untyped
  rw [Node.reread, Registry.create_standard h.made.isStandard, input]
  change Except.bind (Except.mapError _ (Except.mapError _
    (Block.inputSettings (Block.inputProperties settings)))) _ = _
  rw [refused]
  rfl

end Node.Returns

namespace Graph

variable {g : Graph}

/-- Blocks and literals that come back by themselves, under the conditions of saving. -/
structure Savable (g : Graph) : Prop where
  finite : ∀ id n, g.node? id = some n → AllFinite n.block.floats
  noGeometry : ∀ id n, g.node? id = some n → n.block.HoldsNoGeometry
  literals : ∀ id n, g.node? id = some n → ∀ s ∈ n.inputs, ∀ v, s.default? = some v →
    AllFinite v.floats ∧ v.Fits s.spec.kind

/-- No input block holds a value without knowing its kind. -/
def AllTyped (g : Graph) : Prop := ∀ id n, g.node? id = some n → n.block.IsTyped

theorem ReachableWith.returns (h : g.ReachableWith Block.Made) (savable : g.Savable) {id : BlockId}
    {n : Node} (hn : g.node? id = some n) : n.Returns := by
  have declares := h.declares fun b made => made.isStandard
  refine ⟨declares.sort id n hn, savable.finite id n hn, savable.noGeometry id n hn, ?_⟩
  intro s hs
  obtain ⟨index, found⟩ := List.mem_iff_getElem?.1 hs
  exact ⟨ReachableBy.keepsLiterals h id n hn .input index s found, savable.literals id n hn s hs⟩

theorem ReachableWith.load_save (h : g.ReachableWith Block.Made) (savable : g.Savable)
    (typed : g.AllTyped) : ∃ g', load .standard g.save = .ok g' ∧ g.Same g' := by
  have coherent := ReachableWith.coherent h
  refine coherent.load_save.of_ok ((reread_eq_ok_iff ..).2 ⟨g.nodes, ?_, rfl⟩)
  refine List.forall₂_same.2 fun entry mem => ⟨rfl, ?_⟩
  have hn := coherent.node?_of_mem mem
  exact (h.returns savable hn).reread (typed _ _ hn) _

theorem exists_of_not_isTyped {b : Block} (untyped : ¬ b.IsTyped) :
    ∃ settings, b = .input settings := by
  cases b with
  | input settings => exact ⟨settings, rfl⟩
  | _ => exact absurd trivial untyped

theorem ReachableWith.load_save_error (h : g.ReachableWith Block.Made) (savable : g.Savable)
    (untyped : ¬ g.AllTyped) :
    ∃ id n settings, g.node? id = some n ∧ n.block = .input settings ∧ ¬ n.block.IsTyped ∧
      load .standard g.save = .error (.create settings.refusal) := by
  have done : ∀ id n, g.node? id = some n → n.block.IsTyped → ∃ n', n.reread id = .ok n' :=
    fun id n hn typed => ⟨n, (h.returns savable hn).reread typed id⟩
  obtain ⟨id, n, hn, untyped, failure⟩ :=
    (ReachableWith.coherent h).load_first_error done untyped
  obtain ⟨settings, input⟩ := exists_of_not_isTyped untyped
  refine ⟨id, n, settings, hn, input, untyped, failure _ ?_⟩
  exact (h.returns savable hn).reread_error input untyped id

/-- A reached graph comes back as it was saved exactly where no input block holds a value without
knowing its kind: with the same blocks under the same numbers, the same literals on all inputs, the
same connections and endpoints in the same order and the same output, so that it is saved alike and
has the same outcomes. Otherwise loading refuses such a block. -/
theorem ReachableWith.comes_back_iff (h : g.ReachableWith Block.Made) (savable : g.Savable) :
    ((∃ g', load .standard g.save = .ok g' ∧ g.Same g' ∧ g'.save = g.save ∧
      ∀ config, g'.build config = g.build config) ↔ g.AllTyped) ∧
    (¬ g.AllTyped → ∃ id n settings, g.node? id = some n ∧ n.block = .input settings ∧
      ¬ n.block.IsTyped ∧ load .standard g.save = .error (.create settings.refusal)) := by
  refine ⟨⟨?_, ?_⟩, h.load_save_error savable⟩
  · rintro ⟨g', loaded, -⟩
    by_contra untyped
    obtain ⟨_, _, _, _, _, _, refused⟩ := h.load_save_error savable untyped
    rw [loaded] at refused
    cases refused
  · intro typed
    obtain ⟨g', loaded, same⟩ := h.load_save savable typed
    exact ⟨g', loaded, same, same.save, same.build⟩

def openNumber : InputBlock := InputBlock.withValue ⟨.autoDetect, .null, none⟩ (.int 3)

theorem made_openNumber : openNumber.Made :=
  .withValue _ (.read (j := .object [("kind", .string "AutoDetect")]) rfl)

def openInput : Graph :=
  [.add "number" (.input (.ofValue (.int 3))), .setBlock 0 (.input openNumber)].foldl Edit.apply
    .empty

theorem node?_openInput {id : BlockId} {n : Node} (hn : openInput.node? id = some n) :
    n.block = .input openNumber ∧ n.inputs = [] := by
  have nodes : openInput.nodes = [(0, { Node.ofBlock "number" (.input (.ofValue (.int 3))) with
    block := .input openNumber })] := rfl
  rw [Graph.node?, nodes, lookup_cons_ite] at hn
  split at hn
  · cases hn
    exact ⟨rfl, rfl⟩
  · cases hn

theorem reachable_openInput : openInput.ReachableWith Block.Made := by
  refine ReachableBy.foldl .empty _
    ⟨⟨by decide, .ofValue _⟩, ⟨trivial, made_openNumber, ?_⟩, trivial⟩
  intro n hn
  cases hn
  rfl

theorem savable_openInput : openInput.Savable where
  finite id n hn := by
    rw [(node?_openInput hn).1]
    intro x hx
    cases hx
  noGeometry id n hn := by
    rw [(node?_openInput hn).1]
    intro m hm
    cases hm
  literals id n hn s hs := by
    rw [(node?_openInput hn).2] at hs
    cases hs

theorem refused_openInput :
    load .standard openInput.save = .error (.create openNumber.refusal) := by
  obtain ⟨-, refused⟩ := ReachableWith.comes_back_iff reachable_openInput savable_openInput
  have untyped : ¬ openInput.AllTyped := by
    intro typed
    have null := typed 0 _ rfl rfl
    cases null
  obtain ⟨id, n, settings, hn, input, -, error⟩ := refused untyped
  rw [(node?_openInput hn).1] at input
  cases input
  exact error

end Graph
end MeshFlow
