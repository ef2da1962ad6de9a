import MeshFlow.Proofs.Admitting
import MeshFlow.Proofs.Pass
import MeshFlow.Proofs.Suiting
import MeshFlow.Proofs.Unwired

set_option autoImplicit false

/-!
# The way to a kind

The search for the kind of a socket goes on from an input to the output that feeds it, or across a
block to an input that is fed, and from there up. Linked inputs refer to one another, but a socket
that is fed itself never leads across; so no block is met more than twice, the search leads up
through what feeds the block, and it ends. What it finds depends on the blocks that it can meet, and
of these on no more than the kinds that are declared and what feeds the inputs.
-/
namespace MeshFlow

/-- What kinds are found by: the kind of a block's literal, what its sockets declare, and what feeds
its inputs. -/
@[ext]
structure Bearings where
  literal : Option Kind
  inputs : List (SocketSpec × Option SocketId)
  outputs : List SocketSpec

namespace Node

def bearings (n : Node) : Bearings where
  literal := n.block.literalKind?
  inputs := n.inputs.map fun s => (s.spec, s.peer)
  outputs := n.outputs.map (·.spec)

theorem connectedInput?_eq (n : Node) (name : Option String) :
    n.connectedInput? name = (name.bind fun name =>
      n.bearings.inputs.findIdx? (·.1.name == name)).filter fun i =>
        (n.bearings.inputs[i]?.bind (·.2)).isSome := by
  have bound : ∀ i : Nat, (n.bearings.inputs[i]?.bind (·.2)) = n.inputs[i]?.bind (·.peer) := by
    intro i
    rw [bearings, List.getElem?_map, Option.bind_map]
    rfl
  simp only [connectedInput?, bound]
  simp only [bearings, List.findIdx?_map]
  rfl

end Node

namespace Graph
variable {g g' : Graph} {p q : SocketId} {kind kind' : Kind} {path path' : List SocketId}

/-- The sockets that the search for a kind comes by, from the one that is asked for to the one
whose kind is known, and this kind. -/
inductive Trail (g : Graph) : SocketId → List SocketId → Kind → Prop where
  | known {p : SocketId} {kind : Kind} : g.kindSource p = .inl kind → Trail g p [p] kind
  | onward {p q : SocketId} {path : List SocketId} {kind : Kind} : g.kindSource p = .inr q →
    Trail g q path kind → Trail g p (p :: path) kind

theorem Trail.unique (h : g.Trail p path kind) (h' : g.Trail p path' kind') :
    path' = path ∧ kind' = kind := by
  induction h generalizing path' with
  | known source =>
    cases h' with
    | known source' =>
      rw [source] at source'
      cases source'
      exact ⟨rfl, rfl⟩
    | onward source' _ =>
      rw [source] at source'
      cases source'
  | onward source _ ih =>
    cases h' with
    | known source' =>
      rw [source] at source'
      cases source'
    | onward source' rest =>
      rw [source] at source'
      cases source'
      obtain ⟨rfl, same⟩ := ih rest
      exact ⟨rfl, same⟩

theorem exists_trail_of_kindWithin {steps : Nat} (found : g.kindWithin steps p = some kind) :
    ∃ path, g.Trail p path kind := by
  induction steps generalizing p with
  | zero => cases found
  | succ steps ih =>
    rw [kindWithin] at found
    cases source : g.kindSource p with
    | inl known =>
      rw [source] at found
      cases found
      exact ⟨[p], .known source⟩
    | inr q =>
      rw [source] at found
      obtain ⟨path, rest⟩ := ih found
      exact ⟨p :: path, .onward source rest⟩

namespace InOrder

theorem exists_trail (order : g.InOrder) (p : SocketId) :
    ∃ path, g.Trail p path (g.resolvedKind p) := by
  have falls := searchFalls order.wired order.acyclic order.declares
  obtain ⟨kind, found⟩ := falls.exists_kindWithin g.socketCount
    (SearchFalls.card_below_le g g.rank p)
  have known : g.resolvedKind p = kind := by rw [resolvedKind, found, Option.getD_some]
  rw [known]
  exact exists_trail_of_kindWithin found

theorem isChain (order : g.InOrder) (trail : g.Trail p path kind) : path.IsChain g.Hop := by
  induction trail with
  | known _ => exact .singleton _
  | onward source rest ih =>
    have first := hop_of_kindSource order.wired order.declares source
    cases rest with
    | known _ => exact .cons_cons first ih
    | onward _ _ => exact .cons_cons first ih

theorem upTo (order : g.InOrder) (trail : g.Trail p path kind) :
    ∀ x ∈ path, g.UpTo p.block x.block := by
  induction trail with
  | known _ =>
    intro x mem
    rw [List.mem_singleton.1 mem]
    exact .inl rfl
  | onward source _ ih =>
    intro x mem
    rcases List.mem_cons.1 mem with rfl | mem
    · exact .inl rfl
    · cases hop_of_kindSource order.wired order.declares source with
      | up _ feeds =>
        rcases ih x mem with same | reaches
        · rw [same]
          exact .inr (.single feeds)
        · exact .inr (.tail reaches feeds)
      | across _ _ => exact ih x mem

theorem countP_le (order : g.InOrder) (trail : g.Trail p path kind) :
    (∀ id, path.countP (·.block = id) ≤ 2) ∧
      ((g.peer? p).isSome → path.countP (·.block = p.block) ≤ 1) := by
  induction trail with
  | known _ =>
    have single : ∀ (x : SocketId) id, [x].countP (·.block = id) ≤ 1 := fun _ _ =>
      List.countP_le_length
    exact ⟨fun id => (single _ id).trans (Nat.le_succ 1), fun _ => single ..⟩
  | @onward p _ path _ source rest ih =>
    have longer : path.countP (·.block = p.block) ≤ 1 →
        ∀ id, (p :: path).countP (·.block = id) ≤ 2 := by
      intro once id
      by_cases own : p.block = id
      · subst own
        rw [List.countP_cons]
        split <;> omega
      · rw [List.countP_cons_of_neg (by simpa using own)]
        exact ih.1 id
    cases hop_of_kindSource order.wired order.declares source with
    | up _ feeds =>
      have left : path.countP (·.block = p.block) = 0 := by
        rw [List.countP_eq_zero]
        intro x mem own
        have own : x.block = p.block := of_decide_eq_true own
        rcases order.upTo rest x mem with same | reaches
        · rw [← same, own] at feeds
          exact order.acyclic p.block (.single feeds)
        · rw [own] at reaches
          exact order.acyclic p.block (.tail reaches feeds)
      refine ⟨longer (by omega), fun _ => ?_⟩
      rw [List.countP_cons, left]
      split <;> omega
    | across unfed fed => exact ⟨longer (ih.2 fed), fun some => by simp [unfed] at some⟩

end InOrder

/-- Under one number, two graphs have blocks by which the same kinds are found, or none. -/
def BearsAlike (g g' : Graph) (id : BlockId) : Prop :=
  (g'.node? id).map Node.bearings = (g.node? id).map Node.bearings

theorem Linked.bearing_of_output (h : g.Linked) {id : BlockId} {n : Node}
    (hn : g.node? id = some n) (index : Nat) :
    (n.socket? .output index).map (fun s => (s.spec, s.peer))
      = (n.bearings.outputs[index]?).map fun spec => (spec, none) := by
  have unfed := h.peer?_of_output (p := .output id index) rfl
  rw [peer?, socket?_of_node? (p := .output id index) hn] at unfed
  rw [Node.bearings, List.getElem?_map, Option.map_map]
  change (n.socket? .output index).map _ = (n.socket? .output index).map _
  change (n.socket? .output index).bind _ = none at unfed
  cases hs : n.socket? .output index with
  | none => rfl
  | some s =>
    rw [hs, Option.bind_some] at unfed
    rw [Option.map_some, Option.map_some, unfed]
    rfl

theorem BearsAlike.kindSource (alike : g.BearsAlike g' p.block) (h : g.Linked) (h' : g'.Linked) :
    g'.kindSource p = g.kindSource p := by
  obtain ⟨id, side, index⟩ := p
  cases hn : g.node? id with
  | none =>
    have hn' : g'.node? id = none := by simpa [BearsAlike, hn] using alike
    rw [Graph.kindSource, Graph.kindSource, hn, hn']
  | some n =>
    rw [BearsAlike, hn, Option.map_some, Option.map_eq_some_iff] at alike
    obtain ⟨n', hn', bearings⟩ := alike
    have literal : n'.block.literalKind? = n.block.literalKind? := congrArg Bearings.literal bearings
    have sibling : ∀ name, n'.connectedInput? name = n.connectedInput? name := fun name => by
      rw [n'.connectedInput?_eq, n.connectedInput?_eq, bearings]
    have socket : (n'.socket? side index).map (fun s => (s.spec, s.peer))
        = (n.socket? side index).map fun s => (s.spec, s.peer) := by
      cases side with
      | input =>
        rw [Node.socket?, Node.socket?, ← List.getElem?_map, ← List.getElem?_map]
        exact congrArg (·.inputs[index]?) bearings
      | output => rw [h'.bearing_of_output hn', h.bearing_of_output hn, bearings]
    cases hs : n.socket? side index with
    | none =>
      have hs' : n'.socket? side index = none := by simpa [hs] using socket
      simp only [Graph.kindSource, hn, hn', hs, hs']
    | some s =>
      rw [hs, Option.map_some, Option.map_eq_some_iff] at socket
      obtain ⟨s', hs', same⟩ := socket
      obtain ⟨spec, peer⟩ := Prod.mk.inj same
      simp only [Graph.kindSource, hn, hn', hs, hs', spec, peer, literal, sibling]

theorem Trail.congr (trail : g.Trail p path kind) (h : g.Linked) (h' : g'.Linked)
    (alike : ∀ x ∈ path, g.BearsAlike g' x.block) : g'.Trail p path kind := by
  induction trail with
  | known source =>
    exact .known (((alike _ List.mem_cons_self).kindSource h h').trans source)
  | onward source _ ih =>
    exact .onward (((alike _ List.mem_cons_self).kindSource h h').trans source)
      (ih fun x mem => alike x (List.mem_cons_of_mem _ mem))

theorem InOrder.resolvedKind_congr (order : g.InOrder) (order' : g'.InOrder)
    (alike : ∀ id, g.UpTo p.block id → g.BearsAlike g' id) :
    g'.resolvedKind p = g.resolvedKind p := by
  obtain ⟨path, trail⟩ := order.exists_trail p
  obtain ⟨path', trail'⟩ := order'.exists_trail p
  have same := trail.congr order.wired.linked order'.wired.linked fun x mem =>
    alike x.block (order.upTo trail x mem)
  exact (same.unique trail').2

theorem bearsAlike_of_peers (alike : g.Alike g') {id : BlockId}
    (has : g'.hasBlock id = g.hasBlock id)
    (peers : ∀ index, g'.peer? (.input id index) = g.peer? (.input id index)) :
    g.BearsAlike g' id := by
  rw [BearsAlike]
  cases hn' : g'.node? id with
  | none =>
    rw [hasBlock, hasBlock, hn', Option.isSome_none, eq_comm, ← Bool.not_eq_true,
      Option.not_isSome_iff_eq_none] at has
    rw [has]
  | some n' =>
    obtain ⟨n, hn, same⟩ := alike id n' hn'
    have inputs : n'.bearings.inputs = n.bearings.inputs :=
      Node.map_pair_congr (same.specs .input) fun index => by
        have fed := peers index
        rwa [peer?, peer?, socket?_of_node? (p := .input id index) hn,
          socket?_of_node? (p := .input id index) hn'] at fed
    have bearings : n'.bearings = n.bearings :=
      Bearings.ext (congrArg Block.literalKind? same.block) inputs (same.specs .output)
    rw [hn, Option.map_some, Option.map_some, bearings]

theorem peer?_link_of_ne {o i : SocketId} (other : p ≠ i) : (g.link o i).peer? p = g.peer? p := by
  simp only [peer?, socket?_link, Option.bind_map, Function.comp_def, if_neg other]

theorem peer?_unlink_of_ne {o i : SocketId} (other : p ≠ i) :
    (g.unlink o i).peer? p = g.peer? p := by
  simp only [peer?, socket?_unlink, Option.bind_map, Function.comp_def, if_neg other]

theorem bearsAlike_link (g : Graph) {o i : SocketId} {id : BlockId} (other : id ≠ i.block) :
    g.BearsAlike (g.link o i) id :=
  bearsAlike_of_peers (g.alike_link o i) (hasBlock_link ..) fun _ =>
    peer?_link_of_ne fun same => other (congrArg SocketId.block same)

theorem bearsAlike_unlink (g : Graph) {o i : SocketId} {id : BlockId} (other : id ≠ i.block) :
    g.BearsAlike (g.unlink o i) id :=
  bearsAlike_of_peers (g.alike_unlink o i) (hasBlock_unlink ..) fun _ =>
    peer?_unlink_of_ne fun same => other (congrArg SocketId.block same)

section
variable {a b i : SocketId} {id : BlockId}

theorem bearsAlike_connectIf {check : SocketId → SocketId → Compatibility}
    (done : g.connectIf check a b = .ok g') (among : i = a ∨ i = b) (side : i.side = .input)
    (other : id ≠ i.block) : g.BearsAlike g' id := by
  obtain ⟨o, i', -, oriented, -, -, -, rfl⟩ := (connectIf_eq_ok_iff ..).1 done
  obtain rfl := (oriented.input_iff i).1 ⟨among, side⟩
  exact g.bearsAlike_link other

theorem bearsAlike_disconnect? (done : g.disconnect? a b = some g') (among : i = a ∨ i = b)
    (side : i.side = .input) (other : id ≠ i.block) : g.BearsAlike g' id := by
  obtain ⟨o, i', oriented, -, rfl⟩ := (disconnect?_eq_some_iff ..).1 done
  obtain rfl := (oriented.input_iff i).1 ⟨among, side⟩
  exact g.bearsAlike_unlink other

theorem bearsAlike_disconnectEach (g : Graph) (cs : List Connection)
    (among : ∀ c ∈ cs, i = c.output ∨ i = c.input) (side : i.side = .input) (other : id ≠ i.block) :
    g.BearsAlike (g.disconnectEach cs).2 id :=
  disconnectEach_keeps (P := (g.BearsAlike · id))
    (fun c hc _ _ before taken =>
      (bearsAlike_disconnect? taken (among c hc) side other).trans before) rfl

end
end Graph

def Edit.Concerns (i : SocketId) : Edit → Prop
  | connect a b | connectUnchecked a b | disconnect a b => i = a ∨ i = b
  | disconnectAll p => i = p
  | _ => False

namespace Graph
variable {g g' : Graph} {p : SocketId}

theorem bearsAlike_apply (g : Graph) {e : Edit} {i : SocketId} (concerns : e.Concerns i)
    (side : i.side = .input) {id : BlockId} (other : id ≠ i.block) :
    g.BearsAlike (e.apply g) id := by
  cases e with
  | connect a b =>
    exact orKeep_keeps (P := (g.BearsAlike · id)) rfl
      fun g' done => bearsAlike_connectIf done concerns side other
  | connectUnchecked a b =>
    exact orKeep_keeps (P := (g.BearsAlike · id)) rfl
      fun g' done => bearsAlike_connectIf done concerns side other
  | disconnect a b =>
    exact getD_keeps (P := (g.BearsAlike · id)) rfl
      fun g' done => bearsAlike_disconnect? done concerns side other
  | disconnectAll q =>
    obtain rfl : i = q := concerns
    refine g.bearsAlike_disconnectEach _ (fun c hc => ?_) side other
    have ends : c.output = i ∨ c.input = i := of_decide_eq_true (List.mem_filter.1 hc).2
    exact ends.imp Eq.symm Eq.symm
  | add _ _ | insert _ _ _ | remove _ | setDefault _ _ | setOutput _ | setBlock _ _ =>
    exact concerns.elim

/-- In every graph over standard blocks that can be reached, the search for the kind of a socket
ends, where the socket's kind is known. It goes from socket to socket along a connection, up to the
block that feeds, or across to another input of the same block, and leaves no block more than twice;
so it stays among the socket's own block and the blocks above it. In graphs over standard blocks
where these are the same as far as kinds are found by them, the socket has the same kind; and it
keeps its kind when an input of any other block is connected or disconnected. -/
theorem ReachableWith.climbs (h : g.ReachableWith Block.IsStandard) (p : SocketId) :
    (∃ path, g.Trail p path (g.resolvedKind p) ∧ path.IsChain g.Hop ∧
      (∀ q ∈ path, g.UpTo p.block q.block) ∧ ∀ id, path.countP (·.block = id) ≤ 2) ∧
    (∀ g', g'.ReachableWith Block.IsStandard →
      (∀ id, g.UpTo p.block id → g.BearsAlike g' id) → g'.resolvedKind p = g.resolvedKind p) ∧
    ∀ (e : Edit) (i : SocketId), e.Concerns i → i.side = .input → ¬ g.UpTo p.block i.block →
      (e.apply g).resolvedKind p = g.resolvedKind p := by
  have order := ReachableWith.inOrder h
  refine ⟨?_, fun g' h' alike => ?_, fun e i concerns side elsewhere => ?_⟩
  · obtain ⟨path, trail⟩ := order.exists_trail p
    exact ⟨path, trail, order.isChain trail, order.upTo trail, (order.countP_le trail).1⟩
  · exact order.resolvedKind_congr (ReachableWith.inOrder h') alike
  · have reached : (e.apply g).ReachableWith Block.IsStandard := by
      refine .edit e h ?_
      cases e with
      | connect _ _ | connectUnchecked _ _ | disconnect _ _ | disconnectAll _ =>
        exact ⟨trivial, trivial⟩
      | add _ _ | insert _ _ _ | remove _ | setDefault _ _ | setOutput _ | setBlock _ _ =>
        exact concerns.elim
    refine order.resolvedKind_congr (ReachableWith.inOrder reached) fun id above => ?_
    exact g.bearsAlike_apply concerns side fun same => elsewhere (same ▸ above)

/-- A vector is the right operand of a sum, and there is a box besides. -/
def offset : Graph :=
  [.add "corner" (.input (.ofValue (.vector3 .one))), .add "sum" (.math .add),
    .add "box" (.box false), .connect (.output 0 0) (.input 1 1)].foldl Edit.apply .empty

theorem reachable_offset : offset.ReachableWith Block.IsStandard := by
  refine ReachableBy.foldl .empty _ ⟨⟨?_, trivial⟩, ⟨?_, trivial⟩, ⟨?_, trivial⟩,
    ⟨trivial, trivial⟩, trivial⟩ <;> decide +kernel

/-- The left operand has the kind of the vector, by way of the right one, with or without the box and
also when the sum becomes the size of the box. -/
theorem climbs_in_offset :
    (∃ path, offset.Trail (.input 1 0) path .vector3 ∧ path.IsChain offset.Hop ∧
      ∀ id, path.countP (·.block = id) ≤ 2) ∧
    ((Edit.remove 2).apply offset).resolvedKind (.input 1 0) = .vector3 ∧
    ⟨.output 1 0, .input 2 0⟩ ∈
      ((Edit.connect (.output 1 0) (.input 2 0)).apply offset).connections ∧
    ((Edit.connect (.output 1 0) (.input 2 0)).apply offset).resolvedKind (.input 1 0)
      = .vector3 := by
  obtain ⟨⟨path, trail, chain, -, twice⟩, same, kept⟩ :=
    ReachableWith.climbs reachable_offset (.input 1 0)
  have kind : offset.resolvedKind (.input 1 0) = .vector3 := by decide +kernel
  have above : ∀ id, offset.UpTo 1 id → id = 1 ∨ id = 0 := by
    intro id upTo
    have member : id = 1 ∨ id ∈ offset.ancestors 1 := upTo.imp_right (mem_ancestors_iff ..).2
    have ancestors : offset.ancestors 1 = [0] := by decide +kernel
    rwa [ancestors, List.mem_singleton] at member
  rw [kind] at trail
  refine ⟨⟨path, trail, chain, twice⟩, ?_, by decide +kernel, ?_⟩
  · refine (same _ (.edit (.remove 2) reachable_offset ⟨trivial, trivial⟩) ?_).trans kind
    intro id upTo
    rcases above id upTo with rfl | rfl <;> rfl
  · refine (kept (.connect (.output 1 0) (.input 2 0)) (.input 2 0) (.inr rfl) rfl ?_).trans kind
    intro upTo
    rcases above 2 upTo with same | same <;> cases same

end Graph
end MeshFlow
