import MeshFlow.Graph.Kinds
import MeshFlow.Proofs.Pass
import MeshFlow.Proofs.Standard

set_option autoImplicit false

/-!
# The kinds of sockets, worked out

The search for the kind of a socket goes from an output to an input of its block, from there to the
output that feeds it, and so up. It comes to an end before it can run out of sockets, and so the
kind of a socket is that of the socket that it refers to. For an output this gives one equation: its
kind is fixed by its block, or it is the kind of what feeds the block's first input.
-/
namespace MeshFlow

namespace Block

/-- Blocks whose output takes over the kind of their first input. -/
def Derives : Block → Prop
  | math _ | random _ => True
  | _ => False

instance : DecidablePred Derives
  | math _ | random _ => isTrue trivial
  | box _ | sphere _ | plane _ | cylinder _ | pointList _ | mesh .. | input _ | output
  | vectorConverter | shift | scaling | rotation _ | matrixCompose | setAttribute .. | computeNormals _
  | transform _ | merge _ | info | instantiate _ | instantiateOnFaces _ | instantiateOnVertices ..
  | instantiateOnVolume .. | custom _ => isFalse id

/-- The kind of an output of a block whose first input takes in values of the kind `left`. -/
def outputKind (b : Block) (left : Kind) (index : Nat) : Kind :=
  match b.outputSpecs[index]? with
  | none => .autoDetect
  | some spec =>
    match spec.kind with
    | .autoDetect => b.literalKind?.getD .autoDetect
    | .basedOnInput => left
    | kind => kind

theorem derives_usual (b : Block) : b.usual.Derives ↔ b.Derives := by
  cases b <;> exact Iff.rfl

theorem isSome_literalKind?_usual (b : Block) :
    b.usual.literalKind?.isSome = b.literalKind?.isSome := by
  cases b <;> rfl

theorem inputSpecs_usual (b : Block) : b.usual.inputSpecs = b.inputSpecs :=
  congrArg (List.filter _) b.sockets_usual

theorem outputSpecs_usual (b : Block) : b.usual.outputSpecs = b.outputSpecs :=
  congrArg (List.filter _) b.sockets_usual

theorem IsStandard.inputKind_ne {b : Block} (h : b.IsStandard) {spec : SocketSpec}
    (mem : spec ∈ b.inputSpecs) : spec.kind ≠ .basedOnInput := by
  have table : ∀ b ∈ standard, ∀ spec ∈ b.inputSpecs, spec.kind ≠ .basedOnInput := by decide
  exact table _ (usual_mem h) spec (b.inputSpecs_usual ▸ mem)

theorem IsStandard.outputKind_cases {b : Block} (h : b.IsStandard) {spec : SocketSpec}
    (mem : spec ∈ b.outputSpecs) :
    spec.kind.isMeta = false ∨ (spec.kind = .autoDetect ∧ b.literalKind?.isSome) ∨
      spec.kind = .basedOnInput ∧ b.Derives := by
  have table : ∀ b ∈ standard, ∀ spec ∈ b.outputSpecs, spec.kind.isMeta = false ∨
      (spec.kind = .autoDetect ∧ b.literalKind?.isSome) ∨
        spec.kind = .basedOnInput ∧ b.Derives := by decide
  rw [← isSome_literalKind?_usual, ← derives_usual]
  exact table _ (usual_mem h) spec (b.outputSpecs_usual ▸ mem)

theorem outputKind_of_declared {b : Block} {index : Nat} {spec : SocketSpec}
    (h : b.outputSpecs[index]? = some spec) (own : spec.kind.isMeta = false) (left : Kind) :
    b.outputKind left index = spec.kind := by
  unfold outputKind
  rw [h]
  dsimp only
  cases kind : spec.kind <;> first | rfl | (rw [kind] at own; cases own)

theorem Derives.specs {b : Block} (h : b.Derives) :
    ∃ left right derived, b.inputSpecs = [left, right] ∧ b.outputSpecs = [derived] ∧
      left.kind = .autoDetect ∧ derived.kind = .basedOnInput ∧ derived.kindFrom = some left.name ∧
      derived.fallback = some .float ∧ b.literalKind? = none := by
  cases b with
  | math _ => exact ⟨_, _, _, rfl, rfl, rfl, rfl, rfl, rfl, rfl⟩
  | random _ => exact ⟨_, _, _, rfl, rfl, rfl, rfl, rfl, rfl, rfl⟩
  | _ => exact h.elim

end Block

namespace Graph
variable {g : Graph}

def socketIds (g : Graph) : List SocketId :=
  g.nodes.flatMap fun (id, n) =>
    (List.range n.inputs.length).map (.input id) ++ (List.range n.outputs.length).map (.output id)

theorem length_socketIds (g : Graph) : g.socketIds.length = g.socketCount := by
  simp [socketIds, socketCount, List.length_flatMap]

theorem mem_socketIds {p : SocketId} {s : MeshFlow.Socket} (h : g.socket? p = some s) :
    p ∈ g.socketIds := by
  obtain ⟨n, hn, hs⟩ := node?_of_socket? h
  obtain ⟨id, side, index⟩ := p
  have bound : index < (n.sockets side).length := (List.getElem?_eq_some_iff.1 hs).1
  refine List.mem_flatMap.2 ⟨(id, n), mem_of_lookup hn, List.mem_append.2 ?_⟩
  cases side with
  | input => exact .inl (List.mem_map.2 ⟨index, List.mem_range.2 bound, rfl⟩)
  | output => exact .inr (List.mem_map.2 ⟨index, List.mem_range.2 bound, rfl⟩)

theorem socket?_of_kindSource {p q : SocketId} (h : g.kindSource p = .inr q) :
    ∃ s, g.socket? p = some s := by
  rw [kindSource] at h
  split at h
  · cases h
  · rename_i n hn
    split at h
    · cases h
    · rename_i s hs
      exact ⟨s, by rw [socket?, hn]; exact hs⟩

theorem kindWithin_succ {steps : Nat} {p : SocketId} {kind : Kind}
    (h : g.kindWithin steps p = some kind) : g.kindWithin (steps + 1) p = some kind := by
  induction steps generalizing p with
  | zero => cases h
  | succ steps ih =>
    rw [kindWithin] at h ⊢
    split <;> rename_i source <;> rw [source] at h
    · exact h
    · exact ih h

def SearchFalls (g : Graph) (rank : SocketId → Nat) : Prop :=
  ∀ p q, g.kindSource p = .inr q → rank q < rank p

namespace SearchFalls
variable {rank : SocketId → Nat}

def below (g : Graph) (rank : SocketId → Nat) (p : SocketId) : Finset SocketId :=
  g.socketIds.toFinset.filter fun x => rank x ≤ rank p

theorem card_below_le (g : Graph) (rank : SocketId → Nat) (p : SocketId) :
    (below g rank p).card ≤ g.socketCount := by
  rw [← g.length_socketIds]
  exact (Finset.card_filter_le ..).trans (List.toFinset_card_le _)

theorem card_below_lt (h : g.SearchFalls rank) {p q : SocketId} (source : g.kindSource p = .inr q) :
    (below g rank q).card < (below g rank p).card := by
  have falls := h p q source
  obtain ⟨s, hs⟩ := socket?_of_kindSource source
  refine Finset.card_lt_card (Finset.ssubset_iff_subset_ne.2 ⟨fun x hx => ?_, fun same => ?_⟩)
  · rw [below, Finset.mem_filter] at hx ⊢
    exact ⟨hx.1, hx.2.trans falls.le⟩
  · have here : p ∈ below g rank p :=
      Finset.mem_filter.2 ⟨List.mem_toFinset.2 (mem_socketIds hs), Nat.le_refl _⟩
    rw [← same, below, Finset.mem_filter] at here
    omega

theorem exists_kindWithin (h : g.SearchFalls rank) (steps : Nat) {p : SocketId}
    (few : (below g rank p).card ≤ steps) : ∃ kind, g.kindWithin (steps + 1) p = some kind := by
  induction steps generalizing p with
  | zero =>
    rw [kindWithin]
    cases source : g.kindSource p with
    | inl kind => exact ⟨kind, rfl⟩
    | inr q => exact absurd (h.card_below_lt source) (by omega)
  | succ steps ih =>
    rw [kindWithin]
    cases source : g.kindSource p with
    | inl kind => exact ⟨kind, rfl⟩
    | inr q =>
      have less := h.card_below_lt source
      exact ih (by omega)

theorem resolvedKind_eq (h : g.SearchFalls rank) {p q : SocketId}
    (source : g.kindSource p = .inr q) : g.resolvedKind p = g.resolvedKind q := by
  have less := h.card_below_lt source
  have most := card_below_le g rank p
  obtain ⟨steps, count⟩ : ∃ steps, g.socketCount = steps + 1 := ⟨g.socketCount - 1, by omega⟩
  obtain ⟨kind, found⟩ := h.exists_kindWithin steps (p := q) (by omega)
  have further := kindWithin_succ found
  rw [resolvedKind, resolvedKind, kindWithin, source, count]
  exact (congrArg (·.getD .autoDetect) found).trans (congrArg (·.getD .autoDetect) further).symm

end SearchFalls

theorem resolvedKind_of_inl {p : SocketId} {kind : Kind} (source : g.kindSource p = .inl kind) :
    g.resolvedKind p = kind := by
  rw [resolvedKind, kindWithin, source]
  rfl

theorem kindSource_of_declared {p : SocketId} {s : MeshFlow.Socket} (hs : g.socket? p = some s)
    (own : s.spec.kind.isMeta = false) : g.kindSource p = .inl s.spec.kind := by
  obtain ⟨n, hn, hs⟩ := node?_of_socket? hs
  rw [kindSource, hn]
  simp only [hs]
  cases kind : s.spec.kind <;> first | rfl | (rw [kind] at own; cases own)

theorem kindSource_of_literal {p : SocketId} {n : Node} {s : MeshFlow.Socket} {kind : Kind}
    (hn : g.node? p.block = some n) (hs : n.socket? p.side p.index = some s)
    (detected : s.spec.kind = .autoDetect) (literal : n.block.literalKind? = some kind) :
    g.kindSource p = .inl kind := by
  rw [kindSource, hn]
  simp only [hs, detected, literal]

theorem resolvedKind_of_declared {p : SocketId} {s : MeshFlow.Socket} (hs : g.socket? p = some s)
    (own : s.spec.kind.isMeta = false) : g.resolvedKind p = s.spec.kind :=
  resolvedKind_of_inl (kindSource_of_declared hs own)

theorem connectedInput?_eq_some {n : Node} {name : Option String} {i : Nat}
    (h : n.connectedInput? name = some i) : ∃ s, n.inputs[i]? = some s ∧ s.peer.isSome := by
  rw [Node.connectedInput?, Option.filter_eq_some_iff] at h
  have connected := h.2
  cases hs : n.inputs[i]? with
  | none => simp [hs] at connected
  | some s => exact ⟨s, rfl, by simpa [hs] using connected⟩

/-- One step of the search. -/
inductive Hop (g : Graph) : SocketId → SocketId → Prop where
  /-- From an input to the output that feeds it. -/
  | up {p o : SocketId} : g.peer? p = some o → g.Feeds o.block p.block → Hop g p o
  /-- From a socket that nothing feeds to an input of its block that something feeds. -/
  | across {p : SocketId} {index : Nat} : g.peer? p = none →
    (g.peer? (.input p.block index)).isSome → Hop g p (.input p.block index)

theorem hop_of_kindSource (wired : g.Wired) (declares : g.Declares Block.IsStandard)
    {p q : SocketId} (source : g.kindSource p = .inr q) : g.Hop p q := by
  obtain ⟨id, side, index⟩ := p
  rw [kindSource] at source
  split at source
  · cases source
  rename_i n hn
  split at source
  · cases source
  rename_i s hs
  have peer : g.peer? ⟨id, side, index⟩ = s.peer := by
    rw [peer?, socket?_of_node? hn, hs, Option.bind_some]
  -- an input of the block itself, where the search goes on from there
  have sibling : ∀ {name i}, n.connectedInput? name = some i →
      (g.peer? (.input id i)).isSome := by
    intro name i found
    obtain ⟨s', hs', fed⟩ := connectedInput?_eq_some found
    rw [peer?, socket?_of_node? (p := .input id i) hn]
    exact (congrArg (fun s => (s.bind (·.peer)).isSome) hs').trans fed
  split at source
  · split at source
    · cases source
    split at source
    · -- what feeds the input
      rename_i o fed
      cases source
      rw [fed] at peer
      cases side with
      | output =>
        rw [wired.linked.peer?_of_output rfl] at peer
        cases peer
      | input => exact .up peer (wired.feeds_of_peer? peer)
    · rename_i unfed
      split at source
      · rename_i i found
        cases source
        exact .across (peer.trans unfed) (sibling found)
      · cases source
  · -- a derived kind: outputs alone declare one
    rename_i derived
    split at source
    · rename_i i found
      cases source
      cases side with
      | output => exact .across (wired.linked.peer?_of_output rfl) (sibling found)
      | input =>
        have mem : s.spec ∈ n.block.inputSpecs := by
          rw [← (declares.specs id n hn).1]
          exact List.mem_map_of_mem (List.mem_of_getElem? hs)
        exact absurd derived ((declares.sort id n hn).inputKind_ne mem)
    · cases source
  · cases source

/-- Outputs come before inputs of their block, and connected inputs come last. -/
def rank (g : Graph) (p : SocketId) : Nat :=
  3 * g.height p.block +
    match p.side with
    | .output => 2
    | .input => if (g.peer? p).isSome then 0 else 1

theorem rank_lt (g : Graph) (p : SocketId) : g.rank p < 3 * g.height p.block + 3 := by
  rw [rank]
  split
  · omega
  · split <;> omega

theorem rank_of_fed {p : SocketId} (side : p.side = .input) (fed : (g.peer? p).isSome) :
    g.rank p = 3 * g.height p.block := by
  simp [rank, side, fed]

theorem lt_rank_of_unfed {p : SocketId} (unfed : g.peer? p = none) :
    3 * g.height p.block < g.rank p := by
  rw [rank, unfed]
  split <;> simp

section
variable (wired : g.Wired) (acyclic : g.Acyclic) (declares : g.Declares Block.IsStandard)
include wired acyclic declares

theorem searchFalls : g.SearchFalls g.rank := by
  intro p q source
  cases hop_of_kindSource wired declares source with
  | up _ feeds =>
    have lower := acyclic.height_lt feeds
    have top := g.rank_lt q
    have bottom : 3 * g.height p.block ≤ g.rank p := Nat.le_add_right ..
    omega
  | across unfed fed =>
    rw [rank_of_fed rfl fed]
    exact lt_rank_of_unfed unfed

omit wired acyclic declares in
def leftKind (g : Graph) (id : BlockId) : Kind :=
  match g.peer? (.input id 0) with
  | some o => g.resolvedKind o
  | none => .float

theorem resolvedKind_derived {id : BlockId} {n : Node} (hn : g.node? id = some n)
    (derives : n.block.Derives) : g.resolvedKind (.output id 0) = g.leftKind id := by
  have falls := searchFalls wired acyclic declares
  obtain ⟨left, right, derived, inputSpecs, outputSpecs, detects, derivedKind, kindFrom, fallback,
    noLiteral⟩ := derives.specs
  obtain ⟨inputs, outputs⟩ := declares.specs id n hn
  rw [inputSpecs, List.map_eq_cons_iff] at inputs
  obtain ⟨s, rest, inputs, rfl, -⟩ := inputs
  rw [outputSpecs, List.map_eq_singleton_iff] at outputs
  obtain ⟨t, outputs, rfl⟩ := outputs
  have first : n.inputs[0]? = some s := by rw [inputs]; rfl
  have found : n.connectedInput? (some s.spec.name) = if s.peer.isSome then some 0 else none := by
    rw [Node.connectedInput?, Option.bind_some, Node.find?, Node.sockets, inputs,
      List.findIdx?_cons, beq_self_eq_true, if_pos rfl, Option.filter_some]
    rfl
  have source : g.kindSource (.output id 0)
      = if s.peer.isSome then .inr (.input id 0) else .inl .float := by
    rw [kindSource, SocketId.output, hn]
    simp only [Node.socket?, Node.sockets, outputs, List.getElem?_cons_zero, derivedKind, kindFrom,
      found, fallback]
    cases s.peer <;> rfl
  have peer : g.peer? (.input id 0) = s.peer := by
    rw [peer?, socket?, SocketId.input, hn, Option.bind_some, Node.socket?, Node.sockets, first]
    rfl
  rw [leftKind, peer]
  cases fed : s.peer with
  | none =>
    rw [fed] at source
    exact resolvedKind_of_inl source
  | some o =>
    rw [fed] at source
    have next : g.kindSource (.input id 0) = .inr o := by
      rw [kindSource, SocketId.input, hn]
      simp only [Node.socket?, Node.sockets, first, detects, noLiteral, fed]
    exact (falls.resolvedKind_eq source).trans (falls.resolvedKind_eq next)

theorem resolvedKind_output {id : BlockId} {n : Node} (hn : g.node? id = some n) (index : Nat) :
    g.resolvedKind (.output id index) = n.block.outputKind (g.leftKind id) index := by
  have spec : n.block.outputSpecs[index]? = (n.socket? .output index).map (·.spec) := by
    rw [← (declares.specs id n hn).2, List.getElem?_map]
    rfl
  cases hs : n.socket? .output index with
  | none =>
    rw [hs, Option.map_none] at spec
    rw [Block.outputKind, spec]
    refine resolvedKind_of_inl ?_
    rw [kindSource, SocketId.output, hn]
    simp only [hs]
  | some s =>
    rw [hs, Option.map_some] at spec
    have socket : g.socket? (.output id index) = some s := by
      rw [socket?, SocketId.output, hn]
      exact hs
    rcases (declares.sort id n hn).outputKind_cases (List.mem_of_getElem? spec) with
      own | ⟨detected, literal⟩ | ⟨derived, derives⟩
    · rw [resolvedKind_of_declared socket own, Block.outputKind_of_declared spec own]
    · obtain ⟨kind, known⟩ := Option.isSome_iff_exists.1 literal
      rw [resolvedKind_of_inl (kindSource_of_literal hn hs detected known), Block.outputKind, spec]
      simp only [detected, known, Option.getD_some]
    · obtain ⟨_, _, _, -, outputs, -⟩ := derives.specs
      have zero : index = 0 := by
        rw [outputs] at spec
        simpa using (List.getElem?_eq_some_iff.1 spec).1
      subst zero
      rw [resolvedKind_derived wired acyclic declares hn derives, Block.outputKind, spec]
      simp only [derived]

end
end Graph
end MeshFlow
