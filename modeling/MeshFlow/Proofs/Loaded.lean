import MeshFlow.Proofs.Rereading

set_option autoImplicit false

/-!
# What loading leaves behind

Whatever a saved graph says, a graph that loads is coherent, each of its blocks was made from
settings, and each input holds what it declares or a literal that was read by its kind. Geometry is
never read, and no input block comes to hold a value under a kind that is still to be found.
-/
namespace MeshFlow

namespace Value

theorem kind?_of_literal? {declared : Kind} {j : Json} {v : Value}
    (h : literal? declared j = some v) (concrete : declared.isMeta = false) :
    v = .null ∨ v.kind? = some declared := by
  rw [literal?, concrete] at h
  exact kind?_of_ofJson? h

theorem ofJson?_ne_geometry {k : Kind} {j : Json} (m : Mesh) : ofJson? k j ≠ some (geometry m) := by
  intro h
  rcases kind?_of_ofJson? h with null | kind
  · cases null
  · cases kind
    rw [ofJson?] at h
    split at h
    · cases h
    · obtain ⟨xs, -, h⟩ := Option.bind_eq_some_iff.1 h
      cases h

theorem fits_of_literal? {declared : Kind} {j : Json} {v : Value}
    (h : literal? declared j = some v) : v = .null ∨ v.Fits declared := by
  by_cases null : v = .null
  · exact .inl null
  refine .inr ⟨?_, fun concrete => (kind?_of_literal? h concrete).resolve_left null⟩
  cases v with
  | null => exact null rfl
  | geometry m =>
    rw [literal?] at h
    split at h
    · obtain ⟨k, -, h⟩ := Option.bind_eq_some_iff.1 h
      exact ofJson?_ne_geometry m h
    · exact ofJson?_ne_geometry m h
  | _ => trivial

instance : (v : Value) → Decidable v.IsWritten
  | null | geometry _ => isFalse id
  | int _ | float _ | vector2 _ | vector3 _ | vector4 _ | matrix _ => isTrue trivial

instance (v : Value) (declared : Kind) : Decidable (v.Fits declared) :=
  inferInstanceAs (Decidable (v.IsWritten ∧ (declared.isMeta = false → v.kind? = some declared)))

end Value

instance (xs : List Float32) : Decidable (AllFinite xs) :=
  inferInstanceAs (Decidable (∀ x ∈ xs, x.isFinite = true))

/-- What a socket is declared to yield is finite and goes with its kind. -/
def SocketSpec.DefaultFits (spec : SocketSpec) : Prop :=
  ∀ d ∈ spec.default?, AllFinite d.floats ∧ d.Fits spec.kind

instance (spec : SocketSpec) : Decidable spec.DefaultFits :=
  inferInstanceAs (Decidable (∀ d ∈ spec.default?, AllFinite d.floats ∧ d.Fits spec.kind))

theorem Block.defaultFits_standard :
    ∀ b ∈ Block.standard, ∀ spec ∈ b.inputSpecs, spec.DefaultFits := by
  decide +kernel

theorem Block.IsStandard.defaultFits {b : Block} (h : b.IsStandard) {spec : SocketSpec}
    (mem : spec ∈ b.inputSpecs) : spec.DefaultFits := by
  refine defaultFits_standard _ (usual_mem h) spec ?_
  rwa [Block.inputSpecs, Block.sockets_usual]

/-- An input as it is after loading: it was declared without a literal and has none, or has one that
goes with its kind. -/
def Socket.Loaded (s : Socket) : Prop :=
  (s.default? = none → s.spec.default? = none) ∧
    ∀ v, s.default? = some v → v = .null ∨ v.Fits s.spec.kind

/-- What is made from settings. -/
structure Block.Loaded (b : Block) : Prop where
  made : b.Made
  typed : b.IsTyped
  noGeometry : b.HoldsNoGeometry

theorem Block.loaded_of_inputSettings {j : Json} {b : Block} (h : inputSettings j = .ok b) :
    b.Loaded := by
  obtain ⟨kind, v, source, -, -, value, rfl⟩ := (inputSettings_eq_ok_iff ..).1 h
  refine ⟨InputBlock.Made.read h, fun unknown => ?_, fun m geometry => ?_⟩
  · rcases InputBlock.value_of_inputSettings h with null | known
    · exact null
    · rw [Value.isMeta_of_kind? known] at unknown
      cases unknown
  · change v = .geometry m at geometry
    subst geometry
    cases literal : j.get? "value" with
    | none => simp [literal, Json.orElse] at value
    | some literal =>
      rw [literal, Json.orElse] at value
      exact Value.ofJson?_ne_geometry m value

theorem Block.loaded_of_withProperties {b b' : Block} (standard : b.IsStandard) {j : Json}
    (h : b.usual.withProperties j = .ok b') : b'.Loaded := by
  obtain ⟨settings, rfl⟩ | notInput := exists_or_forall_not (b = .input ·)
  · exact loaded_of_inputSettings h
  obtain ⟨standard', className⟩ := of_withProperties standard h
  have usual := usual_eq_of_className standard' standard className
  cases b' with
  | custom _ => exact standard'.elim
  | input settings => exact absurd usual.symm (usual_ne_input notInput _)
  | _ => exact ⟨trivial, trivial, trivial⟩

theorem Block.usual_of_mem : ∀ b ∈ Block.standard, b.IsStandard ∧ b.usual = b := by
  simp [standard, usual, IsStandard]

theorem Registry.loaded_of_create {className : String} {j : Json} {b : Block}
    (h : Registry.standard.create className j = .ok b) : b.Loaded := by
  rw [create] at h
  split at h
  · rename_i factory found
    obtain ⟨model, mem, same⟩ := List.mem_map.1 (mem_of_lookup found)
    obtain ⟨isStandard, usual⟩ := Block.usual_of_mem model mem
    cases same
    rw [factoryOf, mapError_eq_ok_iff, ← usual] at h
    exact Block.loaded_of_withProperties isStandard h
  · cases h

structure Node.Loaded (n : Node) : Prop where
  block : n.block.Loaded
  inputSpecs : n.inputs.map (·.spec) = n.block.inputSpecs
  outputSpecs : n.outputs.map (·.spec) = n.block.outputSpecs
  literals : ∀ s ∈ n.inputs, s.Loaded

namespace Node

theorem loaded_ofBlock (name : String) {b : Block} (h : b.Loaded) : (ofBlock name b).Loaded where
  block := h
  inputSpecs := by simp [ofBlock, Function.comp_def]
  outputSpecs := by simp [ofBlock, Function.comp_def]
  literals s mem := by
    obtain ⟨spec, hspec, rfl⟩ := List.mem_map.1 mem
    exact ⟨id, fun v literal => .inr (h.made.isStandard.defaultFits hspec v literal).2⟩

theorem Loaded.setLiteral {n : Node} (h : n.Loaded) {index : Nat} {s : Socket}
    (hs : n.socket? .input index = some s) {v : Value} (fits : v = .null ∨ v.Fits s.spec.kind) :
    (n.modifySocket .input index fun s => { s with default? := some v }).Loaded where
  block := h.block
  inputSpecs := (map_modify (f := fun s : Socket => { s with default? := some v })
    (g := Socket.spec) (fun _ => rfl) n.inputs index).trans h.inputSpecs
  outputSpecs := h.outputSpecs
  literals s' mem := by
    obtain ⟨j, found⟩ := List.mem_iff_getElem?.1 mem
    change (n.inputs.modify index _)[j]? = some s' at found
    rw [List.getElem?_modify] at found
    obtain ⟨old, hold, same⟩ := Option.map_eq_some_iff.1 found
    by_cases here : index = j
    · subst here
      cases hs.symm.trans hold
      simp only [if_true] at same
      subst same
      exact ⟨nofun, fun w literal => Option.some.inj literal ▸ fits⟩
    · rw [if_neg here] at same
      subst same
      exact h.literals _ (List.mem_of_getElem? hold)

theorem loaded_unwired_iff (n : Node) : n.unwired.Loaded ↔ n.Loaded := by
  have literals : (∀ s ∈ n.unwired.inputs, s.Loaded) ↔ ∀ s ∈ n.inputs, s.Loaded :=
    List.forall_mem_map
  constructor
  · intro h
    exact ⟨h.block, (specs_unwired n .input).symm.trans h.inputSpecs,
      (specs_unwired n .output).symm.trans h.outputSpecs, literals.1 h.literals⟩
  · intro h
    exact ⟨h.block, (specs_unwired n .input).trans h.inputSpecs,
      (specs_unwired n .output).trans h.outputSpecs, literals.2 h.literals⟩

end Node

namespace Graph

/-- A graph as it is after loading. -/
structure Loaded (g : Graph) : Prop where
  coherent : g.Coherent
  nodes : ∀ id n, g.node? id = some n → n.Loaded

/-- The blocks of a graph in the making. -/
structure LoadedBlocks (g : Graph) : Prop where
  sorted : g.nodes.Pairwise fun a b => a.1 < b.1
  nodes : ∀ id n, g.node? id = some n → n.Loaded ∧ id ≠ .last

variable {g g' : Graph}

theorem LoadedBlocks.insert (h : g.LoadedBlocks) {id : BlockId} {name : String} {block : Block}
    (loaded : block.Loaded) (done : g.insert id name block = .ok g') : g'.LoadedBlocks := by
  have node := node?_insert done
  obtain ⟨-, counted, rfl⟩ := (insert_eq_ok_iff ..).1 done
  refine ⟨insertNode_sorted h.sorted .., fun k n hn => ?_⟩
  rw [node] at hn
  split at hn
  · rename_i same
    cases hn
    exact ⟨Node.loaded_ofBlock name loaded, same ▸ counted⟩
  · exact h.nodes k n hn

theorem LoadedBlocks.loadInput (h : g.LoadedBlocks) {id : BlockId} {saved : SavedInput}
    (done : g.loadInput id saved = .ok g') : g'.LoadedBlocks := by
  rw [Graph.loadInput] at done
  split at done
  · rename_i j p value named
    dsimp only at done
    split at done
    · rename_i v read
      obtain ⟨-, side, s, hs, -⟩ := of_namedSocket named
      obtain ⟨-, rfl⟩ := (setDefault_eq_ok_iff ..).1 ((mapError_eq_ok_iff ..).1 done)
      rw [hs] at read
      have fits := Value.fits_of_literal? read
      refine ⟨modifySocket_sorted h.sorted .., fun k n' hn' => ?_⟩
      rw [node?_modifySocket] at hn'
      split at hn'
      · rename_i here
        obtain ⟨n, hn, rfl⟩ := Option.map_eq_some_iff.1 hn'
        rw [socket?_of_node? (here ▸ hn), side] at hs
        rw [side]
        exact ⟨(h.nodes k n hn).1.setLiteral hs fits, (h.nodes k n hn).2⟩
      · exact h.nodes k n' hn'
    · cases done
  · cases done
    exact h

theorem LoadedBlocks.loadBlock (h : g.LoadedBlocks) {saved : SavedBlock}
    (done : g.loadBlock .standard saved = .ok g') : g'.LoadedBlocks := by
  rw [Graph.loadBlock, bind_eq_ok_iff] at done
  obtain ⟨block, made, done⟩ := done
  rw [bind_eq_ok_iff] at done
  obtain ⟨with_, inserted, done⟩ := done
  have loaded := Registry.loaded_of_create ((mapError_eq_ok_iff ..).1 made)
  have start : with_.LoadedBlocks := h.insert loaded ((mapError_eq_ok_iff ..).1 inserted)
  exact foldlM_tracks (fun _ g => Graph.LoadedBlocks g)
    (fun _ _ _ _ loaded done => loaded.loadInput done) start done

theorem loaded_of_load {saved : SavedGraph} (h : load .standard saved = .ok g) : g.Loaded := by
  obtain ⟨g₀, blocks, -⟩ := (bind_eq_ok_iff ..).1 h
  have start : empty.LoadedBlocks := ⟨.nil, fun id n hn => by simp [node?, empty] at hn⟩
  have loaded : g₀.LoadedBlocks := foldlM_tracks (fun _ g => Graph.LoadedBlocks g)
    (fun _ _ _ _ loaded done => loaded.loadBlock done) start blocks
  obtain ⟨g₁, run, exists_, rfl⟩ := (load_eq_ok_iff _ _ blocks _).1 h
  have replays := (bare_of_loadBlocks blocks).replays.of_run run
  have both : ∀ id n, g₁.node? id = some n → n.Loaded ∧ id ≠ .last := by
    intro id n hn
    have same := replays.unwires id
    rw [hn, Option.map_some, eq_comm, Option.map_eq_some_iff] at same
    obtain ⟨n₀, hn₀, same⟩ := same
    rw [← Node.loaded_unwired_iff, ← same, Node.loaded_unwired_iff]
    exact loaded.nodes id n₀ hn₀
  have nodes : ∀ id n, g₁.node? id = some n → n.Loaded := fun id n hn => (both id n hn).1
  refine ⟨⟨?_, ?_, ?_, ?_, ⟨?_, ?_⟩, exists_⟩, nodes⟩
  · exact (pairwise_bareNodes g₁).1 (replays.blocks ▸ (pairwise_bareNodes g₀).2 loaded.sorted)
  · intro id has
    obtain ⟨n, hn⟩ := Option.isSome_iff_exists.1 has
    exact (both id n hn).2
  · obtain ⟨ends, one_feeder, peer_eq, endpoints_eq⟩ := replays.linked
    exact ⟨ends, one_feeder, peer_eq, endpoints_eq⟩
  · exact replays.acyclic.of_le fun _ _ => id
  · exact fun id n hn => (nodes id n hn).block.made.isStandard
  · exact fun id n hn => ⟨(nodes id n hn).inputSpecs, (nodes id n hn).outputSpecs⟩

end Graph
end MeshFlow
