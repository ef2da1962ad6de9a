import MeshFlow.Proofs.Naming

set_option autoImplicit false

/-!
# Replaying connections

A saved graph lists its connections in some order, and loading makes them one by one, each checked
against those before it. The whole list is accepted just when its names are found, no input occurs
twice and it leads nowhere in a circle; so the order does not matter, neither for whether a graph is
loaded nor for what is built from it.
-/
namespace MeshFlow

theorem foldlM_tracks {ε α σ : Type} {step : σ → α → Except ε σ} (Inv : List α → σ → Prop)
    (keeps : ∀ done x s s', Inv done s → step s x = .ok s' → Inv (done ++ [x]) s') {xs : List α}
    {start s : σ} (h : Inv [] start) (run : xs.foldlM step start = .ok s) : Inv xs s := by
  induction xs using List.reverseRecOn generalizing s with
  | nil =>
    cases run
    exact h
  | append_singleton done x ih =>
    rw [List.foldlM_append, bind_eq_ok_iff] at run
    obtain ⟨before, run, last⟩ := run
    rw [List.foldlM_cons, bind_eq_ok_iff] at last
    obtain ⟨after, last, ⟨⟩⟩ := last
    exact keeps done x before _ (ih run) last

namespace Graph
variable {g g' : Graph}

def bareNodes (g : Graph) : List (BlockId × Node) := g.nodes.map fun (id, n) => (id, n.unwired)

theorem bareNodes_modifySocket (g : Graph) (p : SocketId) {f : MeshFlow.Socket → MeshFlow.Socket}
    (rewires : Node.Rewires f) : (g.modifySocket p f).bareNodes = g.bareNodes := by
  rw [bareNodes, bareNodes, modifySocket, modifyNode, List.map_map]
  refine List.map_congr_left fun ⟨id, n⟩ _ => ?_
  dsimp only [Function.comp_apply]
  split
  · rw [n.unwired_modifySocket _ _ rewires]
  · rfl

theorem bareNodes_link (g : Graph) (o i : SocketId) : (g.link o i).bareNodes = g.bareNodes := by
  have first := g.bareNodes_modifySocket i (f := fun p => { p with peer := some o })
    fun _ => ⟨rfl, rfl⟩
  exact (bareNodes_modifySocket _ o (f := fun p => { p with endpoints := p.endpoints ++ [i] })
    fun _ => ⟨rfl, rfl⟩).trans first

theorem bareNodes_unlink (g : Graph) (o i : SocketId) : (g.unlink o i).bareNodes = g.bareNodes := by
  have first := bareNodes_modifySocket { g with connections := g.connections.erase ⟨o, i⟩ } i
    (f := fun p => { p with peer := none }) fun _ => ⟨rfl, rfl⟩
  exact (bareNodes_modifySocket _ o
    (f := fun p => { p with endpoints := p.endpoints.filter (· ≠ i) }) fun _ => ⟨rfl, rfl⟩).trans
      first

theorem unwires_of_bareNodes (h : g'.bareNodes = g.bareNodes) : g.Unwires g' := by
  have bare : ∀ (g : Graph) id, (g.node? id).map Node.unwired = g.bareNodes.lookup id :=
    fun g id => (lookup_map_values Node.unwired g.nodes id).symm
  intro id
  rw [bare, bare, h]

theorem size_of_bareNodes (h : g'.bareNodes = g.bareNodes) : g'.size = g.size := by
  have lengths := congrArg List.length h
  rwa [bareNodes, bareNodes, List.length_map, List.length_map] at lengths

theorem socketCount_of_bareNodes (h : g'.bareNodes = g.bareNodes) :
    g'.socketCount = g.socketCount := by
  have bare : ∀ g : Graph, g.socketCount
      = (g.bareNodes.map fun (_, n) => n.inputs.length + n.outputs.length).sum := by
    intro g
    rw [socketCount, bareNodes, List.length_flatMap, List.map_map]
    congr 1
    refine List.map_congr_left fun ⟨id, n⟩ _ => ?_
    simp [Node.unwired]
  rw [bare, bare, h]

/-- A graph whose blocks stand by themselves. -/
structure Bare (g : Graph) : Prop where
  sockets : ∀ p s, g.socket? p = some s → s.peer = none ∧ s.endpoints = []
  connections : g.connections = []
  output : g.output = none

theorem bare_empty : empty.Bare where
  sockets p s hs := by simp [socket?, node?, empty] at hs
  connections := rfl
  output := rfl

theorem Bare.insert (h : g.Bare) {id : BlockId} {name : String} {block : Block}
    (done : g.insert id name block = .ok g') : g'.Bare := by
  have node := node?_insert done
  obtain ⟨-, -, rfl⟩ := (insert_eq_ok_iff ..).1 done
  refine ⟨fun p s hs => ?_, h.connections, h.output⟩
  obtain ⟨n, hn, hs⟩ := node?_of_socket? hs
  rw [node] at hn
  split at hn
  · cases hn
    obtain ⟨peer, endpoints, -⟩ := socket?_ofBlock name block _ _ s hs
    exact ⟨peer, endpoints⟩
  · exact h.sockets p s ((socket?_of_node? hn).trans hs)

theorem Bare.setDefault (h : g.Bare) {p : SocketId} {v : Value}
    (done : g.setDefault p v = .ok g') : g'.Bare := by
  obtain ⟨-, rfl⟩ := (setDefault_eq_ok_iff ..).1 done
  refine ⟨fun q s hs => ?_, h.connections, h.output⟩
  rw [socket?_modifySocket] at hs
  split at hs
  · rw [Option.map_eq_some_iff] at hs
    obtain ⟨old, hold, rfl⟩ := hs
    exact h.sockets q old hold
  · exact h.sockets q s hs

theorem Bare.loadInput (h : g.Bare) {id : BlockId} {saved : SavedInput}
    (done : g.loadInput id saved = .ok g') : g'.Bare := by
  rw [Graph.loadInput] at done
  split at done
  · dsimp only at done
    split at done
    · exact h.setDefault ((mapError_eq_ok_iff ..).1 done)
    · cases done
  · cases done
    exact h

theorem Bare.loadBlock (h : g.Bare) {r : Registry} {saved : SavedBlock}
    (done : g.loadBlock r saved = .ok g') : g'.Bare := by
  rw [Graph.loadBlock, bind_eq_ok_iff] at done
  obtain ⟨block, -, done⟩ := done
  rw [bind_eq_ok_iff] at done
  obtain ⟨with_, inserted, done⟩ := done
  have start : with_.Bare := h.insert ((mapError_eq_ok_iff ..).1 inserted)
  exact foldlM_tracks (fun _ g => Graph.Bare g) (fun _ _ _ _ bare done => bare.loadInput done) start
    done

theorem bare_of_loadBlocks {r : Registry} {blocks : List SavedBlock}
    (done : blocks.foldlM (Graph.loadBlock r) empty = .ok g) : g.Bare :=
  foldlM_tracks (fun _ g => Graph.Bare g) (fun _ _ _ _ bare done => bare.loadBlock done) bare_empty
    done

theorem loadConnection_eq_ok_iff (g g' : Graph) (saved : SavedConnection) :
    g.loadConnection saved = .ok g' ↔ ∃ c target, g.Resolves saved c ∧
      g.socket? c.input = some target ∧ target.peer = none ∧
      g.hierarchy c.output c.input = .compatible ∧ g' = g.link c.output c.input := by
  rw [loadConnection, bind_eq_ok_iff]
  constructor
  · rintro ⟨o, output, done⟩
    rw [bind_eq_ok_iff] at done
    obtain ⟨i, input, done⟩ := done
    obtain ⟨o', i', target, ends, ht, free, passes, rfl⟩ := (connectIf_eq_ok_iff ..).1 done
    obtain ⟨-, side, -⟩ := of_namedSocket output
    rcases ends.either with ⟨rfl, rfl⟩ | ⟨rfl, rfl⟩
    · exact ⟨⟨_, _⟩, target, ⟨output, input⟩, ht, free, passes, rfl⟩
    · rw [ends.input] at side
      cases side
  · rintro ⟨⟨o, i⟩, target, ⟨output, input⟩, ht, free, passes, rfl⟩
    obtain ⟨-, outputSide, s, hs, -⟩ := of_namedSocket output
    obtain ⟨-, inputSide, -⟩ := of_namedSocket input
    refine ⟨o, output, (bind_eq_ok_iff ..).2 ⟨i, input, (connectIf_eq_ok_iff ..).2 ?_⟩⟩
    exact ⟨o, i, target, ⟨.inl ⟨rfl, rfl⟩, outputSide, inputSide, by simp [hs], by simp [ht]⟩, ht,
      free, passes, rfl⟩

/-- A graph after some saved connections, made from one without any. -/
structure Replays (g₀ : Graph) (done : List SavedConnection) (g : Graph) : Prop where
  linked : g.Linked
  blocks : g.bareNodes = g₀.bareNodes
  made : List.Forall₂ g₀.Resolves done g.connections
  acyclic : g.Acyclic
  output : g.output = none

section
variable {g₀ : Graph} {done : List SavedConnection} {saved : SavedConnection}

theorem Bare.replays (h : g.Bare) : g.Replays [] g := by
  have linked : g.Linked := by
    refine ⟨?_, ?_, fun p s hs => ?_, fun p s hs => ?_⟩
    · simp [h.connections]
    · rw [h.connections]
      exact List.nodup_nil
    · rw [(h.sockets p s hs).1, h.connections]
      rfl
    · rw [(h.sockets p s hs).2, h.connections]
      rfl
  refine ⟨linked, rfl, ?_, fun a cycle => ?_, h.output⟩
  · rw [h.connections]
    exact .nil
  · have unfed : ∀ a b, ¬ g.Feeds a b := by simp [linked.feeds_iff, h.connections]
    rcases (reaches_iff ..).1 cycle with feeds | ⟨b, -, feeds⟩
    · exact unfed _ _ feeds
    · exact unfed _ _ feeds

theorem reaches_iff_transGen (g : Graph) (a b : BlockId) :
    g.Reaches a b ↔ Relation.TransGen g.Feeds a b := by
  constructor
  · intro reaches
    induction reaches with
    | single feeds => exact .single feeds
    | tail _ feeds ih => exact .tail ih feeds
  · intro path
    induction path with
    | single feeds => exact .single feeds
    | tail _ feeds ih => exact .tail ih feeds

theorem Linked.acyclic_iff (h : g.Linked) (made : List.Forall₂ g₀.Resolves done g.connections) :
    g.Acyclic ↔ ∀ a, ¬ Relation.TransGen (Leads done) a a := by
  have feeds : g.Feeds = Leads done := by
    funext a b
    rw [eq_iff_iff, h.feeds_iff, leads_iff made]
  rw [← feeds]
  exact forall_congr' fun a => not_congr (g.reaches_iff_transGen a a)

theorem Replays.unwires (h : g₀.Replays done g) : g₀.Unwires g := unwires_of_bareNodes h.blocks

theorem Replays.accepts (h : g₀.Replays done g) : g₀.Accepts done where
  named := names_of_resolves h.made
  once := (nodup_iff_oneFeeder h.made).2 h.linked.one_feeder
  acyclic := (h.linked.acyclic_iff h.made).1 h.acyclic

theorem Replays.link (h : g₀.Replays done g) {c : Connection} (resolves : g₀.Resolves saved c)
    {target : MeshFlow.Socket} (ht : g.socket? c.input = some target) (free : target.peer = none) :
    (g.link c.output c.input).Linked ∧
      List.Forall₂ g₀.Resolves (done ++ [saved]) (g.link c.output c.input).connections := by
  have here := (h.unwires.resolves_iff).2 resolves
  obtain ⟨-, outputSide, s, hs, -⟩ := of_namedSocket here.output
  obtain ⟨-, inputSide, -⟩ := of_namedSocket here.input
  refine ⟨h.linked.link outputSide inputSide (by simp [hs]) ht free, ?_⟩
  exact List.rel_append h.made (.cons resolves .nil)

theorem Replays.step (h : g₀.Replays done g) (loaded : g.loadConnection saved = .ok g') :
    g₀.Replays (done ++ [saved]) g' := by
  obtain ⟨c, target, resolves, ht, free, passes, rfl⟩ := (loadConnection_eq_ok_iff ..).1 loaded
  obtain ⟨linked, made⟩ := h.link (h.unwires.resolves_iff.1 resolves) ht free
  refine ⟨linked, (bareNodes_link ..).trans h.blocks, made, ?_, h.output⟩
  rw [(h.linked.feedsBesides linked rfl).acyclic_iff h.acyclic]
  exact (hierarchy_eq_compatible_iff ..).1 passes

/-- What the whole list asks for, the next connection has. -/
theorem Replays.progress (h : g₀.Replays done g) (accepts : g₀.Accepts (done ++ [saved])) :
    ∃ g', g.loadConnection saved = .ok g' := by
  obtain ⟨c, resolves⟩ := (g₀.resolves_iff_names saved).2 (accepts.named saved (by simp))
  have here := h.unwires.resolves_iff.2 resolves
  obtain ⟨-, -, target, ht, -⟩ := of_namedSocket here.input
  have made : List.Forall₂ g₀.Resolves (done ++ [saved]) (g.connections ++ [c]) :=
    List.rel_append h.made (.cons resolves .nil)
  have free : target.peer = none := by
    have once := (nodup_iff_oneFeeder made).1 accepts.once
    rw [OneFeeder, List.map_append, List.nodup_append] at once
    rw [h.linked.peer_eq _ _ ht, feederIn_eq_none_iff]
    intro d hd
    exact once.2.2 _ (List.mem_map_of_mem hd) _ (List.mem_singleton_self _)
  -- The list as a whole says that the graph with this connection has no cycle, and so that none
  -- would be closed by making it.
  obtain ⟨linked, -⟩ := h.link resolves ht free
  have acyclic := (linked.acyclic_iff made).2 accepts.acyclic
  rw [(h.linked.feedsBesides linked rfl).acyclic_iff h.acyclic] at acyclic
  exact ⟨_, (loadConnection_eq_ok_iff ..).2
    ⟨c, target, here, ht, free, (hierarchy_eq_compatible_iff ..).2 acyclic, rfl⟩⟩

theorem Replays.of_run (h : g₀.Replays [] g) {saved : List SavedConnection}
    (run : saved.foldlM Graph.loadConnection g = .ok g') : g₀.Replays saved g' :=
  foldlM_tracks g₀.Replays (fun _ _ _ _ replays loaded => replays.step loaded) h run

theorem Bare.run_iff (h : g.Bare) (saved : List SavedConnection) :
    (∃ g', saved.foldlM Graph.loadConnection g = .ok g') ↔ g.Accepts saved := by
  constructor
  · rintro ⟨g', run⟩
    exact (h.replays.of_run run).accepts
  · intro accepts
    induction saved using List.reverseRecOn with
    | nil => exact ⟨g, rfl⟩
    | append_singleton done saved ih =>
      obtain ⟨before, run⟩ := ih (accepts.of_sublist (List.sublist_append_left ..))
      obtain ⟨after, last⟩ := (h.replays.of_run run).progress accepts
      refine ⟨after, ?_⟩
      rw [List.foldlM_append, bind_eq_ok_iff]
      exact ⟨before, run, (bind_eq_ok_iff ..).2 ⟨after, last, rfl⟩⟩

end

theorem feederIn_of_perm {cs cs' : List Connection} (h : OneFeeder cs) (perm : cs'.Perm cs)
    (p : SocketId) : feederIn cs' p = feederIn cs p := by
  have h' : OneFeeder cs' := (perm.map _).nodup_iff.2 h
  ext o
  rw [feederIn_eq_some_iff h, feederIn_eq_some_iff h', perm.mem_iff]

theorem fedIn_perm {cs cs' : List Connection} (perm : cs'.Perm cs) (p : SocketId) :
    (fedIn cs' p).Perm (fedIn cs p) :=
  (perm.filter _).map _

/-- The same blocks with the same connections, made in another order. -/
structure Reorders (g g' : Graph) : Prop where
  linked : g.Linked
  linked' : g'.Linked
  blocks : g'.bareNodes = g.bareNodes
  connections : g'.connections.Perm g.connections
  output : g'.output = g.output

namespace Reorders

theorem peer? (h : g.Reorders g') (p : SocketId) : g'.peer? p = g.peer? p := by
  rw [h.linked.peer?_eq, h.linked'.peer?_eq, feederIn_of_perm h.linked.one_feeder h.connections]

theorem node? (h : g.Reorders g') {id : BlockId} {n : Node} (hn : g.node? id = some n) :
    ∃ n', g'.node? id = some n' ∧ n.Like n' := by
  obtain ⟨n', hn', same⟩ := (unwires_of_bareNodes h.blocks).node? hn
  exact ⟨n', hn', h.linked.like_node h.linked' h.peer? hn hn' same⟩

theorem like (h : g.Reorders g') : g.Like g' where
  blocks id := by
    rw [LikeAt]
    cases hn : g.node? id with
    | none =>
      have same := unwires_of_bareNodes h.blocks id
      rw [hn, Option.map_none, Option.map_eq_none_iff] at same
      rw [same]
      exact .none
    | some n =>
      obtain ⟨n', hn', like⟩ := h.node? hn
      rw [hn']
      exact .some like
  size := size_of_bareNodes h.blocks
  output := h.output

theorem socket? (h : g.Reorders g') {p : SocketId} {s : MeshFlow.Socket}
    (hs : g.socket? p = some s) :
    ∃ s', g'.socket? p = some s' ∧ s'.spec = s.spec ∧ s'.peer = s.peer ∧
      s'.endpoints.Perm s.endpoints := by
  obtain ⟨n, hn, here⟩ := node?_of_socket? hs
  obtain ⟨n', hn', same⟩ := (unwires_of_bareNodes h.blocks).node? hn
  have spec := Node.spec?_of_unwired same p.side p.index
  rw [here, Option.map_some, Option.map_eq_some_iff] at spec
  obtain ⟨s', hs', spec⟩ := spec
  rw [← socket?_of_node? hn'] at hs'
  refine ⟨s', hs', spec, ?_, ?_⟩
  · rw [h.linked'.peer_eq p s' hs', h.linked.peer_eq p s hs,
      feederIn_of_perm h.linked.one_feeder h.connections]
  · rw [h.linked'.endpoints_eq p s' hs', h.linked.endpoints_eq p s hs]
    exact fedIn_perm h.connections p

theorem kindSource (h : g.Reorders g') (p : SocketId) : g'.kindSource p = g.kindSource p := by
  rw [Graph.kindSource, Graph.kindSource]
  cases hn : g.node? p.block with
  | none => rw [(h.like.blocks p.block).of_missing hn]
  | some n =>
    obtain ⟨n', hn', same⟩ := (unwires_of_bareNodes h.blocks).node? hn
    have like := h.linked.like_node h.linked' h.peer? hn hn' same
    have found : n'.find? .input = n.find? .input := by
      funext name
      rw [Node.find?, Node.find?, Node.sockets, Node.sockets, like.inputs]
    have connected : n'.connectedInput? = n.connectedInput? := by
      funext name
      rw [Node.connectedInput?, Node.connectedInput?, found, like.inputs]
    cases hs : n.socket? p.side p.index with
    | none =>
      have none := Node.spec?_of_unwired same p.side p.index
      rw [hs, Option.map_none, Option.map_eq_none_iff] at none
      simp only [hn', hs, none]
    | some s =>
      obtain ⟨s', hs', spec, peer, -⟩ := h.socket? ((socket?_of_node? hn).trans hs)
      rw [socket?_of_node? hn'] at hs'
      simp only [hn', hs, hs', spec, peer, like.block, connected]

theorem kindWithin (h : g.Reorders g') (steps : Nat) (p : SocketId) :
    g'.kindWithin steps p = g.kindWithin steps p := by
  induction steps generalizing p with
  | zero => rfl
  | succ steps ih => simp only [Graph.kindWithin, h.kindSource, ih]

theorem resolvedKind (h : g.Reorders g') (p : SocketId) :
    g'.resolvedKind p = g.resolvedKind p := by
  rw [Graph.resolvedKind, Graph.resolvedKind, socketCount_of_bareNodes h.blocks, h.kindWithin]

end Reorders

theorem Replays.reorders {g₀ : Graph} {saved saved' : List SavedConnection}
    (h : g₀.Replays saved g) (h' : g₀.Replays saved' g') (perm : saved'.Perm saved)
    (output : Option BlockId) : Graph.Reorders { g with output } { g' with output } where
  linked := ⟨h.linked.ends, h.linked.one_feeder, h.linked.peer_eq, h.linked.endpoints_eq⟩
  linked' := ⟨h'.linked.ends, h'.linked.one_feeder, h'.linked.peer_eq, h'.linked.endpoints_eq⟩
  blocks := h'.blocks.trans h.blocks.symm
  connections := perm_of_resolves h.made h'.made perm
  output := rfl

theorem load_eq_ok_iff (r : Registry) (saved : SavedGraph) {g₀ : Graph}
    (blocks : saved.blocks.foldlM (Graph.loadBlock r) empty = .ok g₀)
    (g : Graph) : load r saved = .ok g ↔ ∃ g₁,
      saved.connections.foldlM Graph.loadConnection g₀ = .ok g₁ ∧
      (∀ id, saved.output = some id → g₁.hasBlock id) ∧ g = { g₁ with output := saved.output } := by
  rw [load, blocks]
  change ((saved.connections.foldlM Graph.loadConnection g₀).mapError LoadError.graph >>= _)
    = .ok g ↔ _
  simp only [bind_eq_ok_iff, mapError_eq_ok_iff]
  refine exists_congr fun g₁ => and_congr_right fun run => ?_
  cases named : saved.output with
  | none =>
    have unset := ((bare_of_loadBlocks blocks).replays.of_run run).output
    have same : { g₁ with output := none } = g₁ := by rw [← unset]
    change Except.ok g₁ = .ok g ↔ _
    rw [same, Except.ok.injEq, eq_comm]
    exact ⟨fun eq => ⟨nofun, eq⟩, And.right⟩
  | some id => simp [mapError_eq_ok_iff, setOutput_eq_ok_iff]

/-- Once the blocks are loaded, the connections are accepted just when each names sockets that are
there, no input is named twice, and they lead nowhere in a circle. So any order of them is accepted
if one is; and the graphs have the same connections, in another order, with the same peers, the same
kinds and the same outcomes. -/
theorem loads_in_any_order (r : Registry) (saved : SavedGraph) {g₀ : Graph}
    (blocks : saved.blocks.foldlM (Graph.loadBlock r) empty = .ok g₀) :
    ((∃ g, saved.connections.foldlM Graph.loadConnection g₀ = .ok g) ↔
      g₀.Accepts saved.connections) ∧
    ((∃ g, load r saved = .ok g) ↔ g₀.Accepts saved.connections ∧
      ∀ id, saved.output = some id → g₀.hasBlock id) ∧
    ∀ connections, connections.Perm saved.connections →
      ((∃ g', load r { saved with connections } = .ok g') ↔ ∃ g, load r saved = .ok g) ∧
      ∀ g g', load r saved = .ok g → load r { saved with connections } = .ok g' →
        g'.connections.Perm g.connections ∧ (∀ p, g'.peer? p = g.peer? p) ∧
        (∀ p s, g.socket? p = some s → ∃ s', g'.socket? p = some s' ∧ s'.spec = s.spec ∧
          s'.peer = s.peer ∧ s'.endpoints.Perm s.endpoints) ∧
        (∀ p, g'.resolvedKind p = g.resolvedKind p) ∧
        ∀ config, g'.build config = g.build config := by
  have bare := bare_of_loadBlocks blocks
  have loads : ∀ connections, (∃ g, load r { saved with connections } = .ok g) ↔
      g₀.Accepts connections ∧ ∀ id, saved.output = some id → g₀.hasBlock id := by
    intro connections
    simp only [load_eq_ok_iff r { saved with connections } blocks]
    constructor
    · rintro ⟨_, g₁, run, exists_, -⟩
      have replays := bare.replays.of_run run
      refine ⟨replays.accepts, fun id named => ?_⟩
      rw [← replays.unwires.hasBlock]
      exact exists_ id named
    · rintro ⟨accepts, exists_⟩
      obtain ⟨g₁, run⟩ := (bare.run_iff connections).2 accepts
      refine ⟨_, g₁, run, fun id named => ?_, rfl⟩
      rw [(bare.replays.of_run run).unwires.hasBlock]
      exact exists_ id named
  refine ⟨bare.run_iff _, loads _, fun connections perm => ⟨?_, ?_⟩⟩
  · rw [loads, loads]
    exact and_congr_left fun _ => ⟨fun accepts => accepts.perm perm.symm, fun accepts =>
      accepts.perm perm⟩
  · intro g g' loaded loaded'
    obtain ⟨g₁, run, -, rfl⟩ := (load_eq_ok_iff r saved blocks _).1 loaded
    obtain ⟨g₁', run', -, rfl⟩ :=
      (load_eq_ok_iff r { saved with connections } blocks _).1 loaded'
    have reorders := (bare.replays.of_run run).reorders (bare.replays.of_run run') perm saved.output
    exact ⟨reorders.connections, reorders.peer?, fun p s => reorders.socket?,
      reorders.resolvedKind, reorders.like.build⟩

/-- A sphere with new normals as the result; the connection that is needed last stands first. -/
def smoothing : SavedGraph where
  output := some 2
  blocks := [{ className := "SphereBlock", id := 0 },
    { className := "ComputeNormalsBlock", id := 1 }, { className := "GeometryOutputBlock", id := 2 }]
  connections := [⟨1, "output", 2, "geometry"⟩, ⟨0, "geometry", 1, "geometry"⟩]

def smoothingBlocks : Graph :=
  [.add "" (.sphere false), .add "" (.computeNormals true), .add "" .output].foldl Edit.apply .empty

theorem loads_smoothing_reversed :
    smoothingBlocks.Accepts smoothing.connections ∧
    ∃ g g', load .standard smoothing = .ok g ∧
      load .standard { smoothing with connections := smoothing.connections.reverse } = .ok g' ∧
      ∀ config, g'.build config = g.build config := by
  have blocks : smoothing.blocks.foldlM (Graph.loadBlock .standard) empty
      = .ok smoothingBlocks := rfl
  obtain ⟨accepted, -, anyOrder⟩ := loads_in_any_order .standard smoothing blocks
  obtain ⟨loads, same⟩ := anyOrder smoothing.connections.reverse (List.reverse_perm _)
  have loaded : ∃ g, load .standard smoothing = .ok g := ⟨_, rfl⟩
  obtain ⟨g', loaded'⟩ := loads.2 loaded
  obtain ⟨g, loaded⟩ := loaded
  exact ⟨accepted.1 ⟨_, rfl⟩, g, g', loaded, loaded', (same g g' loaded loaded').2.2.2.2⟩

end Graph
end MeshFlow
