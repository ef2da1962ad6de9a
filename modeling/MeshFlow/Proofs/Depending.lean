import MeshFlow.Proofs.Ordered
import MeshFlow.Proofs.Sameness

set_option autoImplicit false

/-!
# What an outcome depends on

Two graphs that agree on the output block and on all that is above it have the same outcome,
whatever else is in them. There strict evaluation is the very same computation in both, since it
never leaves what they agree on; and what it comes to, both of them come to.
-/
namespace MeshFlow

/-- The name, the settings, the literals of the inputs and what feeds them are the same. -/
structure Node.Agrees (n n' : Node) : Prop where
  name : n'.name = n.name
  block : n'.block = n.block
  inputs : n'.inputs.map (fun s => (s.default?, s.peer))
    = n.inputs.map fun s => (s.default?, s.peer)

theorem Supplier.only_congr {above above' : Supplier} {may : BlockId → Bool}
    (build : ∀ a, may a → above'.build a = above.build a)
    (read : ∀ p, may p.block → above'.read p = above.read p) :
    above'.only may = above.only may := by
  have gives_out : ∀ {α : Type} (b b' : Build α),
      (do guard (false = true); b) = (do guard (false = true); b') := fun _ _ => rfl
  rw [Supplier.only, Supplier.only, Supplier.mk.injEq]
  constructor
  · funext a
    cases allowed : may a with
    | true => rw [build a allowed]
    | false => exact gives_out ..
  · funext p
    cases allowed : may p.block with
    | true => rw [read p allowed]
    | false => exact gives_out ..

namespace Graph
variable {g g' : Graph}

namespace LikeAt
variable {id : BlockId}

theorem suppliers (h : g.LikeAt g' id) : g'.suppliers id = g.suppliers id := by
  cases hn : g.node? id with
  | none => rw [Graph.suppliers, Graph.suppliers, hn, h.of_missing hn]
  | some n =>
    obtain ⟨n', hn', like⟩ := h.of_node? hn
    rw [Graph.suppliers, Graph.suppliers, hn, hn', Option.map_some, Option.map_some, like.peers]

theorem feeds_iff (h : g.LikeAt g' id) (a : BlockId) : g'.Feeds a id ↔ g.Feeds a id := by
  rw [Feeds, Feeds, h.suppliers]

theorem isStored (h : g.LikeAt g' id) (s : Session) : g'.isStored s id = g.isStored s id := by
  cases hn : g.node? id with
  | none => rw [Graph.isStored, Graph.isStored, hn, h.of_missing hn]
  | some n =>
    obtain ⟨n', hn', like⟩ := h.of_node? hn
    rw [Graph.isStored, Graph.isStored, hn, hn', Option.any_some, Option.any_some,
      like.length_outputs]

theorem inTurn {n n' : Node} (like : n.Like n') (peers : ∀ o ∈ n.peers, g.LikeAt g' o.block)
    (s : Session) : g'.inTurn s n' = g.inTurn s n := by
  have stored : n.peers.all (fun o => g'.isStored s o.block)
      = n.peers.all fun o => g.isStored s o.block := by
    rw [Bool.eq_iff_iff, List.all_eq_true, List.all_eq_true]
    exact forall₂_congr fun o ho => by rw [(peers o ho).isStored s]
  rw [Graph.inTurn, Graph.inTurn, like.peers, stored]

theorem strictBlock (h : g.LikeAt g' id) (suppliers : ∀ a, g.Feeds a id → g.LikeAt g' a)
    (above : Supplier) : g'.strictBlock above id = g.strictBlock above id := by
  cases hn : g.node? id with
  | none => rw [Graph.strictBlock, Graph.strictBlock, hn, h.of_missing hn]
  | some n =>
    obtain ⟨n', hn', like⟩ := h.of_node? hn
    have peers : ∀ o ∈ n.peers, g.LikeAt g' o.block := fun o ho =>
      suppliers _ ((Graph.feeds_iff ..).2 ⟨n, hn, o, ho, rfl⟩)
    simp only [Graph.strictBlock, hn, hn', strictNode, like.peers, inTurn like peers,
      h.completeNode above like, h.isStored]

theorem strictOutput {p : SocketId} (h : g.LikeAt g' p.block)
    (suppliers : ∀ a, g.Feeds a p.block → g.LikeAt g' a) (above : Supplier) :
    g'.strictOutput above p = g.strictOutput above p := by
  have run : ∀ (owner : BlockId) (program : Program Value),
      (do guard (owner = p.block); g'.runProgram above owner program)
        = (do guard (owner = p.block); g.runProgram above owner program) := by
    intro owner program
    by_cases own : owner = p.block
    · rw [own, h.runProgram]
    · simp only [guard, own, if_false]
      rfl
  simp only [Graph.strictOutput, h.strictBlock suppliers, run]

end LikeAt

/-- The graphs have like blocks wherever the first one leads up to a block. -/
def LikeUpTo (g g' : Graph) (id : BlockId) : Prop := ∀ b, g.UpTo id b → g.LikeAt g' b

namespace LikeUpTo
variable {id : BlockId}

theorem here (h : g.LikeUpTo g' id) : g.LikeAt g' id := h id (.inl rfl)

theorem above (h : g.LikeUpTo g' id) {a : BlockId} (reaches : g.Reaches a id) :
    g.LikeUpTo g' a := by
  rintro b (rfl | further)
  · exact h b (.inr reaches)
  · exact h b (.inr (further.trans reaches))

theorem reaches_iff (h : g.LikeUpTo g' id) (a : BlockId) : g'.Reaches a id ↔ g.Reaches a id := by
  constructor
  · intro reaches
    induction reaches with
    | single feeds => exact .single ((h.here.feeds_iff _).1 feeds)
    | tail _ feeds ih =>
      have feeds := (h.here.feeds_iff _).1 feeds
      exact .tail (ih (h.above (.single feeds))) feeds
  · intro reaches
    induction reaches with
    | single feeds => exact .single ((h.here.feeds_iff _).2 feeds)
    | tail _ feeds ih => exact .tail (ih (h.above (.single feeds))) ((h.here.feeds_iff _).2 feeds)

theorem isAncestorOf (h : g.LikeUpTo g' id) (a : BlockId) :
    g'.isAncestorOf a id = g.isAncestorOf a id := by
  rw [Bool.eq_iff_iff, isAncestorOf_iff, isAncestorOf_iff, h.reaches_iff]

theorem height (h : g.LikeUpTo g' id) : g'.height id = g.height id := by
  rw [Graph.height, Graph.height]
  congr 1
  ext a
  rw [List.mem_toFinset, List.mem_toFinset, mem_ancestors_iff, mem_ancestors_iff, h.reaches_iff]

theorem strictWithin (depth : Nat) :
    ∀ id, g.LikeUpTo g' id →
      (g'.strictWithin depth).build id = (g.strictWithin depth).build id ∧
      ∀ p : SocketId, p.block = id →
        (g'.strictWithin depth).read p = (g.strictWithin depth).read p := by
  induction depth with
  | zero => exact fun _ _ => ⟨rfl, fun _ _ => rfl⟩
  | succ depth ih =>
    intro id h
    have suppliers : ∀ a, g.Feeds a id → g.LikeAt g' a := fun a feeds =>
      (h.above (.single feeds)).here
    have ancestors : (g'.isAncestorOf · id) = (g.isAncestorOf · id) := funext h.isAncestorOf
    have same : ((g'.strictWithin depth).only (g'.isAncestorOf · id))
        = (g.strictWithin depth).only (g.isAncestorOf · id) := by
      rw [ancestors]
      refine Supplier.only_congr (fun a up => ?_) fun p up => ?_
      · exact (ih a (h.above ((isAncestorOf_iff ..).1 up))).1
      · exact (ih _ (h.above ((isAncestorOf_iff ..).1 up))).2 p rfl
    constructor
    · change g'.strictBlock _ id = g.strictBlock _ id
      rw [same, h.here.strictBlock suppliers]
    · rintro p rfl
      change g'.strictOutput _ p = g.strictOutput _ p
      rw [same, h.here.strictOutput suppliers]

theorem strictResult (h : g.LikeUpTo g' id) (depth : Nat) {n n' : Node} (like : n.Like n') :
    resultFrom (g'.strictWithin depth) id n' = resultFrom (g.strictWithin depth) id n := by
  obtain ⟨build, read⟩ := strictWithin depth id h
  rw [like.resultFrom, resultFrom, resultFrom, build, read (.output id 0) rfl]

end LikeUpTo

theorem InOrder.like_of_agrees (order : g.InOrder) (order' : g'.InOrder) {id : BlockId}
    {n n' : Node} (hn : g.node? id = some n) (hn' : g'.node? id = some n') (agrees : n.Agrees n') :
    n.Like n' := by
  obtain ⟨inputs, outputs⟩ := order.declares.specs id n hn
  obtain ⟨inputs', outputs'⟩ := order'.declares.specs id n' hn'
  rw [agrees.block] at inputs' outputs'
  refine ⟨agrees.name, agrees.block, ?_, outputs'.trans outputs.symm⟩
  refine order.wired.linked.inputs_eq order'.wired.linked hn hn' ?_
  have columns : ∀ n : Node, n.inputs.map (fun s => (s.spec, s.default?, s.peer))
      = (n.inputs.map (·.spec)).zip (n.inputs.map fun s => (s.default?, s.peer)) := by
    intro n
    rw [List.zip_map']
  rw [columns, columns, inputs', inputs, agrees.inputs]

theorem concluded_congr {config : BuildConfig} {b b' : Build Value}
    {f f' : Value → Build (Option Mesh)} (result : b'.run (.start config) = b.run (.start config))
    (rest : ∀ v, f' v = f v) :
    concluded config (b' >>= f') = concluded config (b >>= f) := by
  rw [funext rest, concluded, concluded, StateT.run_bind, StateT.run_bind, result]

theorem InOrder.build_eq_of_likeUpTo (order : g.InOrder) (order' : g'.InOrder) {id : BlockId}
    (output : g.output = some id) (output' : g'.output = some id) (like : g.LikeUpTo g' id)
    (config : BuildConfig) : g'.build config = g.build config := by
  obtain ⟨n, hn⟩ := Option.isSome_iff_exists.1 (order.wired.output_exists id output)
  obtain ⟨n', hn', same⟩ := like.here.of_node? hn
  obtain ⟨v, s, strict, -⟩ := order.strict_ends hn (Nat.lt_succ_self _) config
  have within : g.height id + 1 ≤ g.size + 1 := Nat.succ_le_succ (order.wired.height_le_size id)
  have within' : g.height id + 1 ≤ g'.size + 1 := by
    rw [← like.height]
    exact Nat.succ_le_succ (order'.wired.height_le_size id)
  have run : (g.resultValue id n).run (.start config) = some (v, s) :=
    g.strictResult_refines within id n _ _ strict
  have run' : (g'.resultValue id n').run (.start config) = some (v, s) := by
    refine g'.strictResult_refines within' id n' _ _ ?_
    rw [like.strictResult _ same]
    exact strict
  rw [build_of_node? output hn, build_of_node? output' hn']
  exact concluded_congr (run'.trans run.symm) (same.finish id)

/-- Two graphs over the standard blocks that have the same output block, and agree on it and on all
that is above it, have the same outcome under every configuration, whatever else is in them and
in whatever order they were put together. -/
theorem ReachableWith.build_eq_of_agrees {g g' : Graph} (h : g.ReachableWith Block.IsStandard)
    (h' : g'.ReachableWith Block.IsStandard) (output : g'.output = g.output)
    (agree : ∀ id, g.output = some id → ∀ b, g.UpTo id b →
      ∃ n n', g.node? b = some n ∧ g'.node? b = some n' ∧ n.Agrees n')
    (config : BuildConfig) : g'.build config = g.build config := by
  have order := ReachableWith.inOrder h
  have order' := ReachableWith.inOrder h'
  cases named : g.output with
  | none => rw [Graph.build, Graph.build, output, named]
  | some id =>
    have like : g.LikeUpTo g' id := by
      intro b upTo
      obtain ⟨n, n', hn, hn', agrees⟩ := agree id named b upTo
      rw [LikeAt, hn, hn']
      exact .some (order.like_of_agrees order' hn hn' agrees)
    exact order.build_eq_of_likeUpTo order' named (output.trans named) like config

/-- The diamond put together in another order, with something else beside it that draws random
numbers and reads what is shared. -/
def otherDiamond : Graph :=
  [.insert 9 "noise" (.random .none), .insert 3 "both" (.merge false),
    .insert 2 "moved" (.transform true), .insert 1 "smooth" (.computeNormals true),
    .insert 0 "sphere" (.sphere false), .insert 4 "result" .output,
    .insert 7 "beside" (.instantiate true), .connectUnchecked (.output 0 0) (.input 7 0),
    .connectUnchecked (.output 9 0) (.input 7 3), .connectUnchecked (.output 3 0) (.input 4 0),
    .connectUnchecked (.output 2 0) (.input 3 1), .connectUnchecked (.output 1 0) (.input 3 0),
    .connectUnchecked (.output 0 0) (.input 2 0), .connectUnchecked (.output 0 0) (.input 1 0),
    .setOutput 4].foldl Edit.apply .empty

theorem build_otherDiamond : otherDiamond.build {} = diamond.build {} := by
  have reached : otherDiamond.ReachableWith Block.IsStandard := by
    refine ReachableBy.foldl .empty _ ?_
    refine ⟨⟨?_, trivial⟩, ⟨?_, trivial⟩, ⟨?_, trivial⟩, ⟨?_, trivial⟩, ⟨?_, trivial⟩, ⟨?_, trivial⟩,
      ⟨?_, trivial⟩, ⟨trivial, trivial⟩, ⟨trivial, trivial⟩, ⟨trivial, trivial⟩, ⟨trivial, trivial⟩,
      ⟨trivial, trivial⟩, ⟨trivial, trivial⟩, ⟨trivial, trivial⟩, ⟨trivial, trivial⟩, trivial⟩ <;>
      decide +kernel
  refine ReachableWith.build_eq_of_agrees reachable_diamond reached (by decide +kernel) ?_ {}
  intro id output b upTo
  have four : diamond.output = some 4 := by decide +kernel
  cases four.symm.trans output
  have ancestors : diamond.ancestors 4 = [0, 1, 2, 3] := by decide +kernel
  have member : b = 4 ∨ b ∈ diamond.ancestors 4 := upTo.imp_right (mem_ancestors_iff ..).2
  simp only [ancestors, List.mem_cons, List.not_mem_nil, or_false] at member
  rcases member with rfl | rfl | rfl | rfl | rfl <;> exact ⟨_, _, rfl, rfl, rfl, rfl, rfl⟩

end Graph
end MeshFlow
