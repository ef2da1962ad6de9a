import MeshFlow.Proofs.Outcome
import MeshFlow.Proofs.Strict
import MeshFlow.Proofs.Suiting

set_option autoImplicit false

/-!
# Passes go in order

In a graph over the standard blocks that edits can lead to, strict evaluation never gives out. A
block is called for while nothing at or above it is underway, since what is underway is what it
leads to and there are no cycles; so all that has been visited there is finished, and stays so.
-/
namespace MeshFlow

/-- The plan has something for each of that many outputs. -/
def Plan.Covers (plan : Plan) (outputs : Nat) : Prop :=
  ∀ index < outputs, ∃ supply, (index, supply) ∈ plan.outputs

theorem Plan.covers_one (supply : Supply) (result : Option Value) :
    Plan.Covers ⟨[(0, supply)], result⟩ 1 := by
  intro index lt
  rw [Nat.lt_one_iff.1 lt]
  exact ⟨supply, List.mem_singleton.2 rfl⟩

theorem Plan.covers_zipIdx {ι : Type} (supply : ι → Supply) (entries : List ι)
    (result : Option Value) :
    Plan.Covers ⟨entries.zipIdx.map fun e => (e.2, supply e.1), result⟩ entries.length := by
  intro index lt
  refine ⟨supply entries[index], List.mem_map.2 ⟨(entries[index], index), ?_, rfl⟩⟩
  exact List.mem_zipIdx_iff_getElem?.2 (List.getElem?_eq_getElem lt)

theorem Program.single_covers (everyRead : Bool) (p : Program Value) (connected : Nat → Bool)
    (c : Contexts) :
    (single everyRead p).Always (.unknown connected) (fun plan _ => plan.Covers 1) c :=
  (always_bind ..).2 ((always_unknown connected _ c).mono fun supply _ _ =>
    Plan.covers_one supply none)

theorem Block.IsStandard.plan_covers {b : Block} (h : b.IsStandard) (id : BlockId) (name : String)
    (connected : Nat → Bool) (c : Contexts) :
    (b.plan id name).Always (.unknown connected)
      (fun plan _ => plan.Covers b.outputSpecs.length) c := by
  cases b with
  | custom block => exact h.elim
  | pointList points => exact Plan.covers_one _ _
  | mesh data reverseWinding => exact Plan.covers_one _ _
  | input settings =>
    cases found : settings.source with
    | none =>
      rw [Block.plan, found]
      exact Plan.covers_one _ _
    | some source =>
      rw [Block.plan, found]
      exact Program.single_covers true _ connected c
  | output => exact fun _ _ index lt => absurd lt (Nat.not_lt_zero index)
  | vectorConverter =>
    exact Plan.covers_zipIdx (fun view => .onRead do return view (← combinedVector))
      converterViews none
  | info => exact Plan.covers_zipIdx (fun supply => supply) [_, _, _, _] none
  | _ => exact Program.single_covers _ _ connected c

/-- What is stored is run for the block that it is stored for, and ends under the contexts of the
reader. -/
def Stored.Owned (p : SocketId) : Stored → Prop
  | .value _ => True
  | .deferred owner program => owner = p.block ∧ program.Restores

theorem Supply.Restores.owned {supply : Supply} (h : supply.Restores) (id : BlockId) (index : Nat) :
    (supply.stored id).Owned (.output id index) := by
  cases supply with
  | value v => exact True.intro
  | onRead program => exact ⟨rfl, h⟩

structure Session.Proper (s : Session) : Prop where
  nodup : s.built.Nodup
  owned : ∀ p x, s.stored.lookup p = some x → x.Owned p

namespace Graph
variable {g : Graph} {s s' s'' : Session}

theorem isStored_iff (g : Graph) (s : Session) (id : BlockId) :
    g.isStored s id ↔ ∃ node, g.node? id = some node ∧
      ∀ index < node.outputs.length, (s.stored.lookup (.output id index)).isSome := by
  simp [isStored, Option.any_eq_true]

/-- The block has been built to its end: its outputs are stored, and what feeds it has been
visited. -/
structure Finished (g : Graph) (s : Session) (id : BlockId) : Prop where
  stored : g.isStored s id
  suppliers : ∀ a, g.Feeds a id → a ∈ s.built

theorem Finished.mono {id : BlockId} (h : g.Finished s id) (built : ∀ b ∈ s.built, b ∈ s'.built)
    (stored : ∀ p, (s.stored.lookup p).isSome → (s'.stored.lookup p).isSome) :
    g.Finished s' id where
  stored := by
    obtain ⟨node, hn, outputs⟩ := (g.isStored_iff s id).1 h.stored
    exact (g.isStored_iff s' id).2 ⟨node, hn, fun index lt => stored _ (outputs index lt)⟩
  suppliers a feeds := built a (h.suppliers a feeds)

/-- Whatever has been visited at a block or above it is finished. -/
structure Tidy (g : Graph) (s : Session) (id : BlockId) : Prop where
  proper : s.Proper
  finished : ∀ b, g.UpTo id b → b ∈ s.built → g.Finished s b

theorem UpTo.feeder {a id b : BlockId} (feeds : g.Feeds a id) (h : g.UpTo a b) :
    g.Reaches b id := by
  rcases h with rfl | reaches
  · exact .single feeds
  · exact .tail reaches feeds

theorem Tidy.feeder {a id : BlockId} (h : g.Tidy s id) (feeds : g.Feeds a id) :
    g.Tidy s a :=
  ⟨h.proper, fun b upTo => h.finished b (.inr (upTo.feeder feeds))⟩

/-- Building has gone on from one session to another, and all that is new is finished. -/
structure Advances (g : Graph) (new : BlockId → Prop) (s s' : Session) : Prop where
  proper : s'.Proper
  old : ∀ b ∈ s.built, b ∈ s'.built
  only : ∀ b ∈ s'.built, b ∈ s.built ∨ new b ∧ g.Finished s' b
  stored : ∀ p, (s.stored.lookup p).isSome → (s'.stored.lookup p).isSome

theorem Advances.refl (new : BlockId → Prop) (proper : s.Proper) : g.Advances new s s :=
  ⟨proper, fun _ hb => hb, fun _ hb => .inl hb, fun _ hp => hp⟩

theorem Advances.trans {new : BlockId → Prop} (h : g.Advances new s s')
    (h' : g.Advances new s' s'') : g.Advances new s s'' where
  proper := h'.proper
  old b hb := h'.old b (h.old b hb)
  only b hb := by
    rcases h'.only b hb with early | late
    · exact (h.only b early).imp_right fun ⟨fresh, finished⟩ =>
        ⟨fresh, finished.mono h'.old h'.stored⟩
    · exact .inr late
  stored p hp := h'.stored p (h.stored p hp)

theorem Advances.mono {new new' : BlockId → Prop} (h : g.Advances new s s')
    (le : ∀ b, new b → new' b) : g.Advances new' s s' :=
  ⟨h.proper, h.old, fun b hb => (h.only b hb).imp_right fun ⟨fresh, finished⟩ =>
    ⟨le b fresh, finished⟩, h.stored⟩

theorem Tidy.advance {new : BlockId → Prop} {id : BlockId} (h : g.Tidy s id)
    (advances : g.Advances new s s') : g.Tidy s' id where
  proper := advances.proper
  finished b upTo hb := by
    rcases advances.only b hb with early | ⟨-, finished⟩
    · exact (h.finished b upTo early).mono advances.old advances.stored
    · exact finished

theorem Advances.of_unbuilt (new : BlockId → Prop) (h : Unbuilt s s') (proper : s.Proper) :
    g.Advances new s s' where
  proper := by
    obtain ⟨nodup, owned⟩ := proper
    constructor
    · rwa [h.built]
    · rwa [h.stored]
  old b hb := by rwa [h.built]
  only b hb := .inl (by rwa [← h.built])
  stored p hp := by rwa [h.stored]

/-- What feeds a block has been visited, and nothing at or above it is underway. -/
def Served (g : Graph) (s : Session) (id : BlockId) : Prop :=
  ∀ a, g.Feeds a id → a ∈ s.built ∧ g.Tidy s a

theorem Served.of_unbuilt {id : BlockId} (h : g.Served s id) (unbuilt : Unbuilt s s') :
    g.Served s' id := by
  intro a feeds
  obtain ⟨built, tidy⟩ := h a feeds
  have advances : g.Advances (g.UpTo a) s s' := .of_unbuilt _ unbuilt tidy.proper
  exact ⟨advances.old a built, tidy.advance advances⟩

theorem Tidy.served {id : BlockId} (h : g.Tidy s id) (built : id ∈ s.built) :
    g.Served s id :=
  fun a feeds => ⟨(h.finished id (.inl rfl) built).suppliers a feeds, h.feeder feeds⟩

end Graph

/-- A supplier answers in order for blocks of a sort. -/
structure Supplier.Orders (g : Graph) (on : BlockId → Prop) (above : Supplier) : Prop where
  built : ∀ a s, on a → a ∈ s.built → Ends (above.build a) s fun _ s' => s' = s
  read : ∀ p s, on p.block → p.side = .output → (g.socket? p).isSome → p.block ∈ s.built →
    g.Tidy s p.block →
    Ends (above.read p) s fun _ s' => Unbuilt s s' ∧ s'.contexts = s.contexts
  build : ∀ a s, on a → g.hasBlock a → g.Tidy s a → s.contexts = {} →
    Ends (above.build a) s fun _ s' =>
      s'.contexts = {} ∧ a ∈ s'.built ∧ g.Advances (g.UpTo a) s s'

theorem Graph.strictBlock_of_built {g : Graph} {above : Supplier} {id : BlockId} {s : Session}
    (built : id ∈ s.built) : Ends (g.strictBlock above id) s fun _ s' => s' = s := by
  simp only [Graph.strictBlock, ends_bind, ends_get, List.contains_iff_mem.2 built, if_true,
    ends_pure]

theorem Graph.Wired.isSome_of_peer {g : Graph} (h : g.Wired) {p o : SocketId} {socket : Socket}
    (hs : g.socket? p = some socket) (peer : socket.peer = some o) : (g.socket? o).isSome := by
  rw [h.peer_eq _ _ hs, feederIn_eq_some_iff h.one_feeder] at peer
  exact (h.ends _ peer).2.2.1

namespace Supplier.Orders
variable {g : Graph} {above : Supplier} {id : BlockId} {s : Session}

theorem only {on on' : BlockId → Prop} (h : above.Orders g on) {may : BlockId → Bool}
    (le : ∀ a, on' a → may a ∧ on a) : (above.only may).Orders g on' where
  built a s ha mem := by
    obtain ⟨allowed, ha⟩ := le a ha
    simp only [Supplier.only, ends_bind, ends_guard]
    exact ⟨allowed, h.built a s ha mem⟩
  read p s hp side exists_ mem tidy := by
    obtain ⟨allowed, hp⟩ := le _ hp
    simp only [Supplier.only, ends_bind, ends_guard]
    exact ⟨allowed, h.read p s hp side exists_ mem tidy⟩
  build a s ha has tidy contexts := by
    obtain ⟨allowed, ha⟩ := le a ha
    simp only [Supplier.only, ends_bind, ends_guard]
    exact ⟨allowed, h.build a s ha has tidy contexts⟩

theorem readInput (h : above.Orders g (g.Feeds · id)) (wired : g.Wired) (served : g.Served s id)
    (i : Nat) : Ends (g.readInput above (.input id i)) s fun _ s' =>
      Unbuilt s s' ∧ s'.contexts = s.contexts := by
  unfold Graph.readInput
  cases hs : g.socket? (.input id i) with
  | none => exact (ends_pure ..).2 ⟨.refl s, rfl⟩
  | some socket =>
    cases peer : socket.peer with
    | none =>
      simp only [peer]
      exact (ends_pure ..).2 ⟨.refl s, rfl⟩
    | some o =>
      obtain ⟨side, feeds⟩ := wired.feeder hs peer
      obtain ⟨built, tidy⟩ := served _ feeds
      simp only [peer]
      exact h.read o s feeds side (wired.isSome_of_peer hs peer) built tidy

theorem isVarying (h : above.Orders g (g.Feeds · id)) (wired : g.Wired) (served : g.Served s id)
    (i : Nat) : Ends (g.isVarying above (.input id i)) s fun _ s' => s' = s := by
  rw [Graph.isVarying]
  cases peer : g.peer? (.input id i) with
  | none => exact (ends_pure ..).2 rfl
  | some o =>
    have feeds := wired.feeds_of_peer? peer
    simp only [ends_bind, ends_get, ends_pure]
    exact h.built _ s feeds (served _ feeds).1

theorem runs (h : above.Orders g (g.Feeds · id)) (wired : g.Wired) (served : g.Served s id) :
    g.Runs above id (.unknown fun i => g.isConnected (.input id i)) (fun _ => True) (Unbuilt s) where
  read i t unbuilt := by
    refine (h.readInput wired (served.of_unbuilt unbuilt) i).mono fun v t' => ?_
    rintro ⟨unbuilt', contexts⟩
    exact ⟨unbuilt.trans unbuilt', contexts, True.intro⟩
  varying i t unbuilt := by
    refine (h.isVarying wired (served.of_unbuilt unbuilt) i).mono fun _ t' => ?_
    rintro rfl
    exact ⟨unbuilt, rfl⟩
  connected _ := rfl
  enter _ _ unbuilt := unbuilt.trans ⟨rfl, rfl, rfl⟩
  draw _ _ unbuilt := unbuilt.trans ⟨rfl, rfl, rfl⟩
  record d t _ unbuilt := unbuilt.trans (t.unbuilt_record d)
  kept _ _ _ _ _ := True.intro
  keep _ _ _ unbuilt _ := unbuilt.trans ⟨rfl, rfl, rfl⟩

end Supplier.Orders

theorem Session.lookup_storing_isSome {s : Session} {id : BlockId} {outputs : List (Nat × Supply)}
    {p : SocketId}
    (h : (∃ e ∈ outputs, p = .output id e.1) ∨ (s.stored.lookup p).isSome) :
    ((s.storing id outputs).stored.lookup p).isSome := by
  by_contra nothing
  rw [Bool.not_eq_true, Option.isSome_eq_false_iff, Option.isNone_iff_eq_none] at nothing
  obtain ⟨new, old⟩ := Session.lookup_storing_none nothing
  rcases h with ⟨e, he, same⟩ | before
  · exact new e he same
  · rw [old] at before
    cases before

/-- A block has been completed: its outputs are stored, and nothing else is built. -/
structure Graph.Completes (g : Graph) (id : BlockId) (s s' : Session) : Prop where
  proper : s'.Proper
  contexts : s'.contexts = s.contexts
  built : s'.built = s.built
  stored : ∀ p, (s.stored.lookup p).isSome → (s'.stored.lookup p).isSome
  own : g.isStored s' id

theorem Session.Proper.completes {g : Graph} {id : BlockId} {node : Node} {s t : Session}
    (h : s.Proper) (hn : g.node? id = some node) (unbuilt : Unbuilt s t)
    (contexts : t.contexts = s.contexts) {outputs : List (Nat × Supply)}
    (restores : ∀ e ∈ outputs, e.2.Restores)
    (covers : ∀ index < node.outputs.length, ∃ supply, (index, supply) ∈ outputs)
    (result : Option Value) :
    g.Completes id s { t.storing id outputs with result } where
  proper := by
    constructor
    · change t.built.Nodup
      rw [unbuilt.built]
      exact h.nodup
    · intro p x hx
      rcases Session.lookup_storing hx with ⟨e, he, rfl, rfl⟩ | old
      · exact (restores e he).owned id e.1
      · exact h.owned p x (unbuilt.stored ▸ old)
  contexts := contexts
  built := unbuilt.built
  stored p hp := Session.lookup_storing_isSome (.inr (by rwa [unbuilt.stored]))
  own := by
    refine (g.isStored_iff ..).2 ⟨node, hn, fun index lt => ?_⟩
    obtain ⟨supply, mem⟩ := covers index lt
    exact Session.lookup_storing_isSome (.inl ⟨_, mem, rfl⟩)

namespace Supplier.Orders
variable {g : Graph} {above : Supplier} {id : BlockId} {s : Session}

theorem completeNode (h : above.Orders g (g.Feeds · id)) (order : g.InOrder) {node : Node}
    (hn : g.node? id = some node) (served : g.Served s id) (proper : s.Proper) :
    Ends (g.completeNode above id node) s fun _ s' => g.Completes id s s' := by
  unfold Graph.completeNode
  split
  · rw [ends_bind, ends_keepingContexts]
    have standard := order.declares.sort id node hn
    have outputs : node.outputs.length = node.block.outputSpecs.length := by
      rw [← (order.declares.specs id node hn).2, List.length_map]
    have always := (standard.plan_covers id node.name (fun i => g.isConnected (.input id i)) _).and
      (node.block.plan_restores id node.name _ s.contexts)
    refine ((h.runs order.wired served).runProgram _ (.refl s)
      (Program.notes_of_all (fun _ => True.intro) _ _) always).mono fun plan t => ?_
    rintro ⟨unbuilt, covers, restores⟩
    rw [ends_modify, Session.follow_eq]
    rw [← outputs] at covers
    exact proper.completes (t := { t with contexts := s.contexts }) hn
      ⟨unbuilt.stored, unbuilt.built, unbuilt.result⟩ rfl restores covers _
  · rw [ends_modify, Session.storeNulls_eq]
    obtain ⟨unbuilt, -, contexts⟩ :=
      Session.foldl_record (fun p => .unconnectedInput id node.name p.spec.name)
        node.missingInputs s
    refine proper.completes hn unbuilt contexts ?_ ?_ _
    · rintro e he
      obtain ⟨index, -, rfl⟩ := List.mem_map.1 he
      exact True.intro
    · intro index lt
      exact ⟨.value .null, List.mem_map.2 ⟨index, List.mem_range.2 lt, rfl⟩⟩

theorem buildAll (h : above.Orders g (g.Feeds · id)) (wired : g.Wired) (outputs : List SocketId) :
    ∀ s, (∀ o ∈ outputs, g.Feeds o.block id) → s.contexts = {} → s.Proper →
      (∀ a, g.Feeds a id → g.Tidy s a) →
      Ends (Graph.buildAll above outputs) s fun _ s' =>
        s'.contexts = {} ∧ (∀ o ∈ outputs, o.block ∈ s'.built) ∧
          g.Advances (g.Reaches · id) s s' := by
  induction outputs with
  | nil =>
    intro s _ contexts proper _
    exact (ends_pure ..).2 ⟨contexts, by simp, .refl _ proper⟩
  | cons o rest ih =>
    intro s feeds contexts proper tidy
    have first : g.Feeds o.block id := feeds o (List.mem_cons_self ..)
    have has : g.hasBlock o.block := wired.hasBlock_of_reaches (.single first)
    rw [Graph.buildAll, ends_bind]
    refine (h.build _ s first has (tidy _ first) contexts).mono fun _ s' => ?_
    rintro ⟨contexts', built, advances⟩
    refine (ih s' (fun p hp => feeds p (List.mem_cons_of_mem _ hp)) contexts' advances.proper
      fun a ha => (tidy a ha).advance advances).mono fun _ s'' => ?_
    rintro ⟨contexts'', built', advances'⟩
    refine ⟨contexts'', ?_, (advances.mono fun b upTo => upTo.feeder first).trans advances'⟩
    intro p hp
    rcases List.mem_cons.1 hp with rfl | hp
    · exact advances'.old _ built
    · exact built' p hp

theorem strictNode (h : above.Orders g (g.Feeds · id)) (order : g.InOrder) {node : Node}
    (hn : g.node? id = some node) (contexts : s.contexts = {}) (proper : s.Proper)
    (tidy : ∀ a, g.Feeds a id → g.Tidy s a) :
    Ends (g.strictNode above id node) s fun _ s' =>
      s'.contexts = {} ∧ ∃ t, g.Advances (g.Reaches · id) s t ∧ g.Served t id ∧
        g.Completes id t s' := by
  have feeds : ∀ o ∈ node.peers, g.Feeds o.block id := fun o ho =>
    (Graph.feeds_iff ..).2 ⟨node, hn, o, ho, rfl⟩
  rw [Graph.strictNode, ends_bind]
  refine (h.buildAll order.wired node.peers s feeds contexts proper tidy).mono fun _ t => ?_
  rintro ⟨contexts', built, advances⟩
  have served : g.Served t id := by
    intro a ha
    obtain ⟨node', hn', o, ho, rfl⟩ := (Graph.feeds_iff ..).1 ha
    cases hn.symm.trans hn'
    exact ⟨built o ho, (tidy _ ha).advance advances⟩
  have inTurn : g.inTurn t node := by
    rw [Graph.inTurn, contexts', Bool.and_eq_true, List.all_eq_true]
    refine ⟨rfl, fun o ho => ?_⟩
    obtain ⟨mem, above⟩ := served _ (feeds o ho)
    exact (above.finished _ (.inl rfl) mem).stored
  rw [ends_bind, ends_check]
  refine ⟨inTurn, ?_⟩
  rw [ends_bind]
  refine (h.completeNode order hn served advances.proper).mono fun _ s' completes => ?_
  rw [ends_check]
  exact ⟨completes.own, completes.contexts.trans contexts', t, advances, served, completes⟩

theorem strictBlock (h : above.Orders g (g.Feeds · id)) (order : g.InOrder) (has : g.hasBlock id)
    (tidy : g.Tidy s id) (contexts : s.contexts = {}) :
    Ends (g.strictBlock above id) s fun _ s' =>
      s'.contexts = {} ∧ id ∈ s'.built ∧ g.Advances (g.UpTo id) s s' := by
  by_cases visited : id ∈ s.built
  · refine (Graph.strictBlock_of_built visited).mono fun _ s' => ?_
    rintro rfl
    exact ⟨contexts, visited, .refl _ tidy.proper⟩
  · obtain ⟨node, hn⟩ := Option.isSome_iff_exists.1 has
    let noted : Session := { s with built := id :: s.built }
    have proper : noted.Proper := ⟨List.nodup_cons.2 ⟨visited, tidy.proper.nodup⟩,
      tidy.proper.owned⟩
    -- The block itself is underway, but it is not above what feeds it.
    have tidy' : ∀ a, g.Feeds a id → g.Tidy noted a := by
      refine fun a feeds => ⟨proper, fun b upTo hb => ?_⟩
      rcases List.mem_cons.1 hb with rfl | old
      · exact absurd (upTo.feeder feeds) (order.acyclic b)
      · exact (tidy.finished b (.inr (upTo.feeder feeds)) old).mono
          (fun _ => List.mem_cons_of_mem _) fun _ hp => hp
    simp only [Graph.strictBlock, ends_bind, ends_get, List.contains_iff_mem, visited, if_false,
      ends_modify, hn]
    refine (h.strictNode (s := noted) order hn contexts proper tidy').mono fun _ s' => ?_
    rintro ⟨contexts', t, advances, served, completes⟩
    have itself : id ∈ s'.built := by
      rw [completes.built]
      exact advances.old id (List.mem_cons_self ..)
    have kept : ∀ b ∈ t.built, b ∈ s'.built := fun b hb => completes.built ▸ hb
    refine ⟨contexts', itself, completes.proper, ?_, ?_, ?_⟩
    · exact fun b hb => kept b (advances.old b (List.mem_cons_of_mem _ hb))
    · intro b hb
      rw [completes.built] at hb
      rcases advances.only b hb with early | ⟨reaches, finished⟩
      · rcases List.mem_cons.1 early with rfl | old
        · exact .inr ⟨.inl rfl, completes.own, fun a feeds => kept a (served a feeds).1⟩
        · exact .inl old
      · exact .inr ⟨.inr reaches, finished.mono kept completes.stored⟩
    · exact fun p hp => completes.stored p (advances.stored p hp)

theorem strictOutput {p : SocketId} (h : above.Orders g (g.Feeds · p.block)) (wired : g.Wired)
    (side : p.side = .output) (exists_ : (g.socket? p).isSome) (built : p.block ∈ s.built)
    (tidy : g.Tidy s p.block) :
    Ends (g.strictOutput above p) s fun _ s' => Unbuilt s s' ∧ s'.contexts = s.contexts := by
  have stored : (s.stored.lookup p).isSome := by
    obtain ⟨node, hn, outputs⟩ := (g.isStored_iff ..).1 (tidy.finished _ (.inl rfl) built).stored
    obtain ⟨socket, hs⟩ := Option.isSome_iff_exists.1 exists_
    rw [Graph.socket?_of_node? hn, Node.socket?, side] at hs
    have lookup := outputs p.index (List.getElem?_eq_some_iff.1 hs).1
    rwa [SocketId.output, ← side] at lookup
  obtain ⟨x, hx⟩ := Option.isSome_iff_exists.1 stored
  rw [Graph.strictOutput, ends_bind]
  refine (Graph.strictBlock_of_built built).mono fun _ s' => ?_
  rintro rfl
  simp only [ends_bind, ends_get, hx]
  have owned := tidy.proper.owned p x hx
  cases x with
  | value v => exact (ends_pure ..).2 ⟨.refl _, rfl⟩
  | deferred owner program =>
    obtain ⟨rfl, restores⟩ := owned
    rw [ends_bind, ends_guard]
    exact ⟨rfl, (h.runs wired (tidy.served built)).runProgram program (.refl _)
      (Program.notes_of_all (fun _ => True.intro) _ _) (restores _ _)⟩

end Supplier.Orders

namespace Graph
variable {g : Graph}

theorem strictWithin_orders (order : g.InOrder) (depth : Nat) :
    (g.strictWithin depth).Orders g (fun a => g.height a < depth) := by
  induction depth with
  | zero => exact ⟨fun _ _ low => absurd low (Nat.not_lt_zero _),
      fun _ _ low => absurd low (Nat.not_lt_zero _), fun _ _ low => absurd low (Nat.not_lt_zero _)⟩
  | succ depth ih =>
    have above : ∀ id, g.height id < depth + 1 →
        ((g.strictWithin depth).only fun a => g.isAncestorOf a id).Orders g (g.Feeds · id) := by
      refine fun id low => ih.only fun a feeds => ⟨?_, ?_⟩
      · exact (g.isAncestorOf_iff a id).2 (.single feeds)
      · exact Nat.lt_of_lt_of_le (order.acyclic.height_lt feeds) (Nat.le_of_lt_succ low)
    constructor
    · exact fun a s _ built => strictBlock_of_built built
    · exact fun p s low side exists_ built tidy =>
        (above _ low).strictOutput order.wired side exists_ built tidy
    · exact fun a s low has tidy contexts =>
        (above a low).strictBlock order has tidy contexts

theorem Tidy.start (g : Graph) (config : BuildConfig) (id : BlockId) :
    g.Tidy (.start config) id where
  proper := ⟨List.nodup_nil, fun _ _ h => by cases h⟩
  finished _ _ h := by cases h

/-- Where everything visited is finished, whatever leads to something visited is. -/
theorem mem_built_of_reaches {s : Session} (finished : ∀ b ∈ s.built, g.Finished s b)
    {a b : BlockId} (reaches : g.Reaches a b) (hb : b ∈ s.built) : a ∈ s.built := by
  induction reaches with
  | single feeds => exact (finished _ hb).suppliers _ feeds
  | tail _ feeds ih => exact ih ((finished _ hb).suppliers _ feeds)

/-- A strict pass ends, with everything up to the output block built and nothing besides. -/
theorem InOrder.strict_ends (order : g.InOrder) {id : BlockId} {node : Node}
    (hn : g.node? id = some node) {depth : Nat} (low : g.height id < depth) (config : BuildConfig) :
    Ends (resultFrom (g.strictWithin depth) id node) (.start config) fun _ s =>
      s.built.Nodup ∧ (∀ b, b ∈ s.built ↔ g.UpTo id b) ∧ ∀ b ∈ s.built, g.isStored s b := by
  have orders := strictWithin_orders order depth
  have has : g.hasBlock id := by simp [hasBlock, hn]
  rw [resultFrom, ends_bind]
  refine (orders.build id _ low has (.start g config id) rfl).mono fun _ s => ?_
  rintro ⟨-, built, advances⟩
  have new : ∀ b ∈ s.built, g.UpTo id b ∧ g.Finished s b := by
    intro b hb
    rcases advances.only b hb with early | late
    · cases early
    · exact late
  have all : ∀ b, g.UpTo id b → b ∈ s.built := by
    rintro b (rfl | reaches)
    · exact built
    · exact mem_built_of_reaches (fun b hb => (new b hb).2) reaches built
  have done : s.built.Nodup ∧ (∀ b, b ∈ s.built ↔ g.UpTo id b) ∧ ∀ b ∈ s.built, g.isStored s b :=
    ⟨advances.proper.nodup, fun b => ⟨fun hb => (new b hb).1, all b⟩,
      fun b hb => (new b hb).2.stored⟩
  simp only [ends_bind, ends_get]
  cases s.result with
  | some v => exact (ends_pure ..).2 done
  | none =>
    dsimp only
    split
    · exact (ends_pure ..).2 done
    · rename_i outputs
      have exists_ : (g.socket? (.output id 0)).isSome := by
        rw [socket?_of_node? hn]
        cases sockets : node.outputs with
        | nil => simp [sockets] at outputs
        | cons socket rest => simp [SocketId.output, Node.socket?, Node.sockets, sockets]
      have tidy : g.Tidy s id := ⟨advances.proper, fun b _ hb => (new b hb).2⟩
      refine (orders.read (.output id 0) s low rfl exists_ built tidy).mono fun _ s' => ?_
      rintro ⟨unbuilt, -⟩
      obtain ⟨nodup, upTo, stored⟩ := done
      rw [unbuilt.built]
      refine ⟨nodup, upTo, fun b hb => ?_⟩
      have finished : g.Finished s' b := (new b hb).2.mono (fun b hb => by rwa [unbuilt.built])
        fun p hp => by rwa [unbuilt.stored]
      exact finished.stored

/-- A pass visits the output block and what is above it, each once, and leaves something stored for
all their outputs. It is the strict pass, in which every block is completed after all that feeds it
and with no contexts in force, and no read finds nothing stored. -/
theorem ReachableWith.built_in_order {g : Graph} (h : g.ReachableWith Block.IsStandard)
    {id : BlockId} (output : g.output = some id) (config : BuildConfig) :
    ∃ node v s, g.node? id = some node ∧
      (g.resultValue id node).run (.start config) = some (v, s) ∧
      (resultFrom (g.strictWithin g.size) id node).run (.start config) = some (v, s) ∧
      s.built.Nodup ∧ (∀ b, b ∈ s.built ↔ g.UpTo id b) ∧
      ∀ b ∈ s.built, ∀ n, g.node? b = some n → ∀ index < n.outputs.length,
        ∃ x, s.stored.lookup (.output b index) = some x := by
  have order := ReachableWith.inOrder h
  have has := order.wired.output_exists id output
  obtain ⟨node, hn⟩ := Option.isSome_iff_exists.1 has
  have low := order.wired.height_lt_size order.acyclic has
  obtain ⟨v, s, strict, nodup, upTo, stored⟩ := order.strict_ends hn low config
  have plain := g.strictResult_refines (Nat.le_succ _) id node _ _ strict
  refine ⟨node, v, s, hn, plain, strict, nodup, upTo, fun b hb n hn index lt => ?_⟩
  obtain ⟨n', hn', outputs⟩ := (g.isStored_iff s b).1 (stored b hb)
  cases hn.symm.trans hn'
  exact Option.isSome_iff_exists.1 (outputs index lt)

def diamond : Graph :=
  [.add "sphere" (.sphere false), .add "smooth" (.computeNormals true),
    .add "moved" (.transform true), .add "both" (.merge false), .add "result" .output,
    .add "aside" (.box false), .connectUnchecked (.output 0 0) (.input 1 0),
    .connectUnchecked (.output 0 0) (.input 2 0), .connectUnchecked (.output 1 0) (.input 3 0),
    .connectUnchecked (.output 2 0) (.input 3 1), .connectUnchecked (.output 3 0) (.input 4 0),
    .setOutput 4].foldl Edit.apply .empty

theorem reachable_diamond : diamond.ReachableWith Block.IsStandard := by
  refine ReachableBy.foldl .empty _ ?_
  refine ⟨⟨?_, trivial⟩, ⟨?_, trivial⟩, ⟨?_, trivial⟩, ⟨?_, trivial⟩, ⟨?_, trivial⟩, ⟨?_, trivial⟩,
    ⟨trivial, trivial⟩, ⟨trivial, trivial⟩, ⟨trivial, trivial⟩, ⟨trivial, trivial⟩,
    ⟨trivial, trivial⟩, ⟨trivial, trivial⟩, trivial⟩ <;> decide +kernel

theorem built_in_order_diamond :
    ∃ node v s, diamond.node? 4 = some node ∧
      (diamond.resultValue 4 node).run (.start {}) = some (v, s) ∧
      (resultFrom (diamond.strictWithin 6) 4 node).run (.start {}) = some (v, s) ∧
      s.built.count 0 = 1 ∧ 5 ∉ s.built := by
  have output : diamond.output = some 4 := by decide +kernel
  obtain ⟨node, v, s, hn, plain, strict, nodup, upTo, -⟩ :=
    ReachableWith.built_in_order reachable_diamond output {}
  have above : diamond.Reaches 0 4 := (diamond.isAncestorOf_iff 0 4).1 (by decide +kernel)
  refine ⟨node, v, s, hn, plain, strict, ?_, ?_⟩
  · exact List.count_eq_one_of_mem nodup ((upTo 0).2 (.inr above))
  · rw [upTo]
    rintro (same | reaches)
    · exact absurd same (by decide)
    · exact absurd ((diamond.isAncestorOf_iff 5 4).2 reaches) (by decide +kernel)

end Graph
end MeshFlow
