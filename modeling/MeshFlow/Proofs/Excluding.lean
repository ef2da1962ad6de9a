import MeshFlow.Proofs.Suiting

set_option autoImplicit false

/-!
# Kinds that arithmetic never sees

The operands of arithmetic shut out geometry, matrices and textures. They do so when they are
connected, and what feeds them may take on another kind later. But a kind that changes is one that
comes down through arithmetic, whose own operands shut out the same kinds, so that none of them gets
in from above either.
-/
namespace MeshFlow

namespace Block

theorem IsStandard.excluded_subset {b : Block} (h : b.IsStandard) {spec : SocketSpec}
    (mem : spec ∈ b.inputSpecs) : ∀ kind ∈ spec.excluded, kind ∈ nonArithmetic := by
  have table : ∀ b ∈ standard, ∀ spec ∈ b.inputSpecs, ∀ kind ∈ spec.excluded,
      kind ∈ nonArithmetic := by decide
  exact table _ (usual_mem h) spec (b.inputSpecs_usual ▸ mem)

theorem Derives.operands {b : Block} (h : b.Derives) {spec : SocketSpec}
    (mem : spec ∈ b.inputSpecs) : spec.kind = .autoDetect ∧ spec.excluded = nonArithmetic := by
  cases b with
  | math _ | random _ =>
    obtain rfl | rfl := List.mem_pair.1 mem
    all_goals exact ⟨rfl, rfl⟩
  | _ => exact h.elim

end Block

namespace Graph
variable {g : Graph}

/-- The input does not shut out the kind of the output. -/
def Tolerates (g : Graph) (output input : SocketId) : Prop :=
  ∃ target, g.socket? input = some target ∧ g.resolvedKind output ∉ target.spec.excluded

theorem tolerates_of_compatibility {o i : SocketId} (h : g.compatibility o i = .compatible) :
    g.Tolerates o i := by
  rw [compatibility] at h
  split at h
  · cases h
  · rename_i target ht
    split at h
    · rename_i lets
      simp only [letsIn, Bool.and_eq_true, Bool.not_eq_true', List.contains_eq_mem,
        decide_eq_false_iff_not] at lets
      exact ⟨target, ht, lets.2⟩
    · cases h

namespace InOrder
variable (h : g.InOrder)
include h

theorem spec_mem {i : SocketId} (side : i.side = .input) {target : MeshFlow.Socket}
    (ht : g.socket? i = some target) :
    ∃ n, g.node? i.block = some n ∧ target.spec ∈ n.block.inputSpecs := by
  obtain ⟨n, hn, hs⟩ := node?_of_socket? ht
  refine ⟨n, hn, ?_⟩
  rw [← (h.declares.specs _ n hn).1]
  rw [Node.socket?, side] at hs
  exact List.mem_map_of_mem (List.mem_of_getElem? hs)

theorem tolerates_of_arithmetic {o i : SocketId} (oriented : g.Oriented o i o i)
    (arithmetic : g.resolvedKind o ∉ nonArithmetic) : g.Tolerates o i := by
  obtain ⟨target, ht⟩ := Option.isSome_iff_exists.1 oriented.input_exists
  obtain ⟨n, hn, mem⟩ := h.spec_mem oriented.input ht
  exact ⟨target, ht, fun shut =>
    arithmetic ((h.declares.sort _ n hn).excluded_subset mem _ shut)⟩

theorem arithmetic_of_tolerates {o i : SocketId} (side : i.side = .input) {n : Node}
    (hn : g.node? i.block = some n) (derives : n.block.Derives) (tolerates : g.Tolerates o i) :
    g.resolvedKind o ∉ nonArithmetic := by
  obtain ⟨target, ht, notShut⟩ := tolerates
  obtain ⟨n', hn', mem⟩ := h.spec_mem side ht
  rw [hn] at hn'
  cases hn'
  rwa [(derives.operands mem).2] at notShut

theorem output_arithmetic {id : BlockId} {n : Node} (hn : g.node? id = some n)
    (derives : n.block.Derives) (index : Nat)
    (left : ∀ o, g.peer? (.input id 0) = some o → g.resolvedKind o ∉ nonArithmetic) :
    g.resolvedKind (.output id index) ∉ nonArithmetic := by
  have leftArithmetic : g.leftKind id ∉ nonArithmetic := by
    rw [leftKind]
    split
    · rename_i o fed
      exact left o fed
    · decide
  obtain ⟨_, _, derived, -, outputs, -, derivedKind, -⟩ := derives.specs
  rw [resolvedKind_output h.wired h.acyclic h.declares hn, Block.outputKind, outputs]
  cases index with
  | zero => simpa only [List.getElem?_cons_zero, derivedKind] using leftArithmetic
  | succ _ => exact (by decide : Kind.autoDetect ∉ nonArithmetic)

omit h in
theorem resolvedKind_of_fed (falls : g.SearchFalls g.rank) {id : BlockId} {n : Node}
    (hn : g.node? id = some n) (derives : n.block.Derives) {index : Nat} {s : MeshFlow.Socket}
    {o : SocketId} (hs : n.inputs[index]? = some s) (detects : s.spec.kind = .autoDetect)
    (fed : s.peer = some o) : g.resolvedKind (.input id index) = g.resolvedKind o := by
  obtain ⟨_, _, _, -, -, -, -, -, -, noLiteral⟩ := derives.specs
  refine falls.resolvedKind_eq ?_
  rw [kindSource, SocketId.input, hn]
  simp only [Node.socket?, Node.sockets, hs, detects, noLiteral, fed]

/-- An operand has the kind of what feeds it, or else of what feeds the other one, or none yet. -/
theorem operand_arithmetic {id : BlockId} {n : Node} (hn : g.node? id = some n)
    (derives : n.block.Derives) (index : Nat)
    (fed : ∀ i o, g.peer? (.input id i) = some o → g.resolvedKind o ∉ nonArithmetic) :
    g.resolvedKind (.input id index) ∉ nonArithmetic := by
  have falls := searchFalls h.wired h.acyclic h.declares
  obtain ⟨_, _, _, -, -, -, -, -, -, noLiteral⟩ := derives.specs
  have undetected : Kind.autoDetect ∉ nonArithmetic := by decide
  have detects : ∀ {i : Nat} {s : MeshFlow.Socket}, n.inputs[i]? = some s →
      s.spec.kind = .autoDetect := by
    intro i s hs
    refine (derives.operands (?_ : s.spec ∈ n.block.inputSpecs)).1
    rw [← (h.declares.specs id n hn).1]
    exact List.mem_map_of_mem (List.mem_of_getElem? hs)
  have connected : ∀ {i : Nat} {s : MeshFlow.Socket}, n.inputs[i]? = some s → s.peer.isSome →
      g.resolvedKind (.input id i) ∉ nonArithmetic := by
    intro i s hs peer
    obtain ⟨o, peer⟩ := Option.isSome_iff_exists.1 peer
    rw [resolvedKind_of_fed falls hn derives hs (detects hs) peer]
    refine fed i o ?_
    rw [peer?, socket?, SocketId.input, hn, Option.bind_some, Node.socket?, Node.sockets, hs]
    exact peer
  cases hs : n.inputs[index]? with
  | none =>
    have source : g.kindSource (.input id index) = .inl .autoDetect := by
      rw [kindSource, SocketId.input, hn]
      simp only [Node.socket?, Node.sockets, hs]
    rw [resolvedKind_of_inl source]
    exact undetected
  | some s =>
    by_cases peer : s.peer.isSome
    · exact connected hs peer
    · have free : s.peer = none := Option.not_isSome_iff_eq_none.1 peer
      cases linked : n.connectedInput? s.spec.linkedWith with
      | none =>
        have source : g.kindSource (.input id index) = .inl .autoDetect := by
          rw [kindSource, SocketId.input, hn]
          simp only [Node.socket?, Node.sockets, hs, detects hs, noLiteral, free, linked]
        rw [resolvedKind_of_inl source]
        exact undetected
      | some sibling =>
        have source : g.kindSource (.input id index) = .inr (.input id sibling) := by
          rw [kindSource, SocketId.input, hn]
          simp only [Node.socket?, Node.sockets, hs, detects hs, noLiteral, free, linked]
        rw [falls.resolvedKind_eq source]
        obtain ⟨s', hs', peer'⟩ := connectedInput?_eq_some linked
        exact connected hs' peer'

end InOrder

/-- No connection carries a kind that its input shuts out. -/
def RespectsExclusions (g : Graph) : Prop := ∀ c ∈ g.connections, g.Tolerates c.output c.input

theorem SameBlocks.tolerates {g' : Graph} (same : g.SameBlocks g') (h : g.InOrder)
    (h' : g'.InOrder) {o i : SocketId} (oriented : g.Oriented o i o i)
    (oriented' : g'.Oriented o i o i) (quiet : ∀ p, g.DerivesFrom o p → g'.peer? p = g.peer? p)
    (tolerates : g.Tolerates o i) : g'.Tolerates o i := by
  obtain ⟨target, ht, notShut⟩ := tolerates
  obtain ⟨target', ht'⟩ := Option.isSome_iff_exists.1 oriented'.input_exists
  refine ⟨target', ht', ?_⟩
  rwa [same.spec h h' ht ht', same.resolvedKind h h' oriented.output
    (hasBlock_of_socket? oriented.output_exists) (hasBlock_of_socket? oriented'.output_exists) quiet]

theorem Wired.mem_of_peer? (h : g.Wired) {o i : SocketId} (fed : g.peer? i = some o) :
    ⟨o, i⟩ ∈ g.connections := by
  rw [h.linked.peer?_eq] at fed
  exact (feederIn_eq_some_iff h.one_feeder o i).1 fed

theorem RespectsExclusions.apply (h : g.RespectsExclusions) (order : g.InOrder) {e : Edit}
    (checked : e.IsChecked) (order' : (e.apply g).InOrder) : (e.apply g).RespectsExclusions := by
  have same := order.wired.sameBlocks_apply checked
  intro c mem
  -- Up along what feeds the first operands: only there can a kind be another one than before.
  induction height : (e.apply g).height c.output.block using Nat.strong_induction_on
    generalizing c with
  | _ _ ih =>
    have oriented' := order'.wired.oriented mem
    by_cases old : c ∈ g.connections
    · obtain ⟨n, hn⟩ := Option.isSome_iff_exists.1 (hasBlock_of_socket? oriented'.output_exists)
      by_cases derives : n.block.Derives
      · refine order'.tolerates_of_arithmetic oriented' ?_
        have output := order'.output_arithmetic hn derives c.output.index fun o fed => ?_
        · rwa [SocketId.output, ← oriented'.output] at output
        · have feeding := order'.wired.mem_of_peer? fed
          have lower := order'.acyclic.height_lt (order'.wired.feeds_of_peer? fed)
          subst height
          exact order'.arithmetic_of_tolerates (i := .input c.output.block 0) rfl hn derives
            (ih _ lower ⟨o, _⟩ feeding rfl)
      · refine same.tolerates order order' (order.wired.oriented old) oriented' (fun p below => ?_)
          (h c old)
        obtain ⟨m, hm, derived⟩ := below.derives
        rw [← same _ m n hm hn] at derived
        exact absurd derived derives
    · obtain ⟨oriented, passes, quiet⟩ := order.made_of_new checked mem old
      exact same.tolerates order order' oriented oriented' quiet (tolerates_of_compatibility passes)

theorem ReachableChecked.respectsExclusions (h : g.ReachableChecked) : g.RespectsExclusions := by
  refine ReachableBy.invariant (fun c mem => nomatch mem) (fun g e reached checked ih => ?_) h
  exact ih.apply (ReachableChecked.inOrder reached) checked.2
    (ReachableChecked.inOrder (.edit e reached checked))

/-- In what checked edits of standard blocks lead to, no connection carries a kind that its input
shuts out, and neither the operands nor the results of arithmetic are geometry, matrices or
textures. -/
theorem ReachableChecked.shuts_out (h : g.ReachableChecked) :
    (∀ c ∈ g.connections, ∃ target, g.socket? c.input = some target ∧
      g.resolvedKind c.output ∉ target.spec.excluded) ∧
    ∀ id n, g.node? id = some n → n.block.Derives → ∀ index,
      g.resolvedKind (.input id index) ∉ [.geometry, .matrix, .texture] ∧
        g.resolvedKind (.output id index) ∉ [.geometry, .matrix, .texture] := by
  have order := ReachableChecked.inOrder h
  have respects := h.respectsExclusions
  refine ⟨respects, fun id n hn derives index => ?_⟩
  have fed : ∀ i o, g.peer? (.input id i) = some o → g.resolvedKind o ∉ nonArithmetic :=
    fun i o fed => order.arithmetic_of_tolerates (i := .input id i) rfl hn derives
      (respects _ (order.wired.mem_of_peer? fed))
  exact ⟨order.operand_arithmetic hn derives index fed,
    order.output_arithmetic hn derives index (fed 0)⟩

def relayed : Graph :=
  [.add "inner" (.math .add), .add "outer" (.math .add), .connect (.output 0 0) (.input 1 0),
    .add "corner" (.input (.ofValue (.vector3 .one))), .connect (.output 2 0) (.input 0 0)].foldl
    Edit.apply .empty

theorem reachable_relayed : relayed.ReachableChecked := by
  refine ReachableBy.foldl .empty _ ⟨⟨⟨?_, trivial⟩, trivial⟩, ⟨⟨?_, trivial⟩, trivial⟩,
    ⟨⟨trivial, trivial⟩, trivial⟩, ⟨⟨?_, trivial⟩, trivial⟩, ⟨⟨trivial, trivial⟩, trivial⟩,
    trivial⟩ <;> decide +kernel

/-- The operands of the outer sum have become vectors after it was connected. -/
theorem shuts_out_relayed :
    relayed.resolvedKind (.output 0 0) = .vector3 ∧
      (∃ target, relayed.socket? (.input 1 0) = some target ∧
        relayed.resolvedKind (.output 0 0) ∉ target.spec.excluded) ∧
      relayed.resolvedKind (.input 1 1) ∉ [.geometry, .matrix, .texture] := by
  have holds := ReachableChecked.shuts_out reachable_relayed
  refine ⟨by decide +kernel, holds.1 ⟨.output 0 0, .input 1 0⟩ (by decide +kernel), ?_⟩
  exact (holds.2 1 _ rfl trivial 1).1

end Graph
end MeshFlow
