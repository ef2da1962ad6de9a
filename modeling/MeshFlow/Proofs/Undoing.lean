import MeshFlow.Proofs.Admitting
import MeshFlow.Proofs.Replay

set_option autoImplicit false

/-!
# Connections taken back

To take away the connection that has just been made gives back the very graph that it was made in,
down to the order of what each output feeds. The other way round a connection that has been taken
away can be made again: it was no cycle and its input is free. It is the last one then, in the list
of connections as among what its output feeds, and all else is as it was.
-/
namespace MeshFlow

theorem Node.eq_of_sockets {n n' : Node} (unwired : n'.unwired = n.unwired)
    (sockets : ∀ side index, n'.socket? side index = n.socket? side index) : n' = n := by
  have name : n'.name = n.name := (congrArg Node.name unwired :)
  have block : n'.block = n.block := (congrArg Node.block unwired :)
  have inputs : n'.inputs = n.inputs := List.ext_getElem? (sockets .input)
  have outputs : n'.outputs = n.outputs := List.ext_getElem? (sockets .output)
  cases n
  cases n'
  cases name
  cases block
  cases inputs
  cases outputs
  rfl

namespace Graph
variable {g g' : Graph}

theorem nodes_eq_of_sockets (sorted : g.nodes.Pairwise fun a b => a.1 < b.1)
    (sorted' : g'.nodes.Pairwise fun a b => a.1 < b.1) (blocks : g'.bareNodes = g.bareNodes)
    (sockets : ∀ p, g'.socket? p = g.socket? p) : g'.nodes = g.nodes := by
  apply List.ext_getElem?
  intro place
  have here := congrArg (·[place]?) blocks
  simp only [bareNodes, List.getElem?_map] at here
  cases entry : g.nodes[place]? with
  | none => simpa [entry] using here
  | some e =>
    obtain ⟨id, n⟩ := e
    rw [entry, Option.map_some, Option.map_eq_some_iff] at here
    obtain ⟨⟨id', n'⟩, entry', same⟩ := here
    obtain ⟨rfl, unwired⟩ : id' = id ∧ n'.unwired = n.unwired := Prod.mk.inj same
    have hn : g.node? id' = some n := lookup_of_mem_sorted sorted (List.mem_of_getElem? entry)
    have hn' : g'.node? id' = some n' := lookup_of_mem_sorted sorted' (List.mem_of_getElem? entry')
    have equal : n' = n := Node.eq_of_sockets unwired fun side index => by
      have socket := sockets ⟨id', side, index⟩
      rwa [socket?_of_node? hn', socket?_of_node? hn] at socket
    rw [entry', equal]

theorem Wired.unfed_of_free (h : g.Wired) {i : SocketId} {target : MeshFlow.Socket}
    (ht : g.socket? i = some target) (free : target.peer = none) :
    ∀ c ∈ g.connections, c.input ≠ i := by
  rw [← feederIn_eq_none_iff, ← h.peer_eq i target ht, free]

/-- To a free input nothing has led, so that taking away what leads to it takes away no more than
the connection that is new. -/
theorem Wired.socket?_unlink_link (h : g.Wired) {o i : SocketId} {target : MeshFlow.Socket}
    (ht : g.socket? i = some target) (free : target.peer = none) (p : SocketId) :
    ((g.link o i).unlink o i).socket? p = g.socket? p := by
  rw [socket?_unlink, socket?_link, Option.map_map]
  cases hs : g.socket? p with
  | none => rfl
  | some s =>
    have peer : (if p = i then none else if p = i then some o else s.peer) = s.peer := by
      split
      · rename_i same
        rw [same, ht] at hs
        rw [← Option.some.inj hs, free]
      · rfl
    have away : ∀ x ∈ s.endpoints, x ≠ i := by
      rw [h.endpoints_eq p s hs]
      intro x fed
      obtain ⟨c, hc, rfl⟩ := List.mem_map.1 fed
      exact h.unfed_of_free ht free c (List.mem_of_mem_filter hc)
    have endpoints : (if p = o then (if p = o then s.endpoints ++ [i] else s.endpoints).filter
        (· ≠ i) else if p = o then s.endpoints ++ [i] else s.endpoints) = s.endpoints := by
      split
      · rw [List.filter_append, List.filter_eq_self.2 (by simpa using away)]
        simp
      · rfl
    simp only [Option.map_some, Function.comp_apply, peer, endpoints]

theorem Wired.unlink_link (h : g.Wired) {a b o i : SocketId} (oriented : g.Oriented a b o i)
    {target : MeshFlow.Socket} (ht : g.socket? i = some target) (free : target.peer = none) :
    (g.link o i).unlink o i = g := by
  have linked : (g.link o i).Wired :=
    h.link oriented.output oriented.input oriented.output_exists ht free
  have mem : (⟨o, i⟩ : Connection) ∈ (g.link o i).connections :=
    List.mem_append_right _ (List.mem_singleton.2 rfl)
  have blocks : ((g.link o i).unlink o i).bareNodes = g.bareNodes :=
    (bareNodes_unlink ..).trans (bareNodes_link ..)
  have nodes := nodes_eq_of_sockets h.sorted (linked.unlink mem).sorted blocks
    (h.socket?_unlink_link ht free)
  have connections : (g.connections ++ [(⟨o, i⟩ : Connection)]).erase ⟨o, i⟩ = g.connections := by
    have fresh : (⟨o, i⟩ : Connection) ∉ g.connections :=
      fun mem => h.unfed_of_free ht free _ mem rfl
    rw [List.erase_append_right _ fresh, List.erase_cons_head, List.append_nil]
  calc (g.link o i).unlink o i
      = { g with
          nodes := ((g.link o i).unlink o i).nodes
          connections := (g.connections ++ [(⟨o, i⟩ : Connection)]).erase ⟨o, i⟩ } := rfl
    _ = g := by rw [nodes, connections]

theorem Oriented.of_sockets {a b o i : SocketId} (h : g.Oriented a b o i)
    (same : ∀ p, (g'.socket? p).isSome = (g.socket? p).isSome) : g'.Oriented a b o i :=
  ⟨h.either, h.output, h.input, (same o).trans h.output_exists, (same i).trans h.input_exists⟩

theorem Oriented.link {a b o i : SocketId} (h : g.Oriented a b o i) :
    (g.link o i).Oriented a b o i :=
  h.of_sockets fun p => by rw [socket?_link, Option.isSome_map]

theorem Oriented.unlink {a b o i : SocketId} (h : g.Oriented a b o i) :
    (g.unlink o i).Oriented a b o i :=
  h.of_sockets fun p => by rw [socket?_unlink, Option.isSome_map]

theorem Wired.disconnect?_connectIf (h : g.Wired) {check : SocketId → SocketId → Compatibility}
    {a b : SocketId} (done : g.connectIf check a b = .ok g') :
    g'.disconnect? a b = some g ∧ g'.disconnect? b a = some g := by
  obtain ⟨o, i, target, oriented, ht, free, -, rfl⟩ := (connectIf_eq_ok_iff ..).1 done
  have mem : (⟨o, i⟩ : Connection) ∈ (g.link o i).connections :=
    List.mem_append_right _ (List.mem_singleton.2 rfl)
  have back := (h.unlink_link oriented ht free).symm
  exact ⟨(disconnect?_eq_some_iff ..).2 ⟨o, i, oriented.link, mem, back⟩,
    (disconnect?_eq_some_iff ..).2 ⟨o, i, oriented.link.symm, mem, back⟩⟩

theorem Wired.hierarchy_unlink (h : g.Wired) (acyclic : g.Acyclic) {o i : SocketId}
    (hc : ⟨o, i⟩ ∈ g.connections) : (g.unlink o i).hierarchy o i = .compatible := by
  have feeds : g.Feeds o.block i.block := (h.feeds_iff ..).2 ⟨_, hc, rfl, rfl⟩
  rw [hierarchy_eq_compatible_iff]
  rintro (own | back)
  · exact acyclic _ (.single (own ▸ feeds))
  · have fewer : ∀ a b, (g.unlink o i).Feeds a b → g.Feeds a b := by
      intro a b feeds
      obtain ⟨c, mem, ends⟩ := ((h.unlink hc).feeds_iff a b).1 feeds
      exact (h.feeds_iff a b).2 ⟨c, List.mem_of_mem_erase mem, ends⟩
    exact acyclic _ (.head feeds (back.mono fewer))

theorem Wired.connectUnchecked_unlink (h : g.Wired) (acyclic : g.Acyclic) {a b o i : SocketId}
    (oriented : g.Oriented a b o i) (hc : ⟨o, i⟩ ∈ g.connections) :
    (g.unlink o i).connectUnchecked a b = .ok ((g.unlink o i).link o i) := by
  obtain ⟨target, ht⟩ := Option.isSome_iff_exists.1 oriented.input_exists
  have hs : (g.unlink o i).socket? i = some { target with
      peer := none
      endpoints := if i = o then target.endpoints.filter (· ≠ i) else target.endpoints } := by
    rw [socket?_unlink, ht, Option.map_some, if_pos rfl]
  exact (connectIf_eq_ok_iff ..).2 ⟨o, i, _, oriented.unlink, hs, rfl, h.hierarchy_unlink acyclic hc,
    rfl⟩

theorem Wired.reorders_unlink_link (h : g.Wired) {o i : SocketId} (hc : ⟨o, i⟩ ∈ g.connections) :
    g.Reorders ((g.unlink o i).link o i) where
  linked := h.linked
  linked' := by
    obtain ⟨output, input, ho, hi⟩ := h.ends _ hc
    have there := (h.oriented hc).unlink
    obtain ⟨target, ht⟩ := Option.isSome_iff_exists.1 there.input_exists
    have unfed : feederIn (g.connections.erase ⟨o, i⟩) i = none := by
      rw [feederIn_erase h.one_feeder hc, if_pos rfl]
    have free : target.peer = none := ((h.unlink hc).peer_eq i target ht).trans unfed
    exact (h.unlink hc).linked.link output input there.output_exists ht free
  blocks := (bareNodes_link ..).trans (bareNodes_unlink ..)
  connections := (List.perm_append_singleton _ _).trans (List.perm_cons_erase hc).symm
  output := rfl

/-- In every graph that can be reached, to take away a connection that has just been made, with its
ends in either order, gives back the very graph that it was made in. And a connection that is there
can be taken away and made again, after which it is the last one and the others are in their order;
every socket has the peer and the kind that it had, and every build comes to the same. -/
theorem Reachable.undoes (h : g.Reachable) :
    (∀ a b g', g.connect a b = .ok g' ∨ g.connectUnchecked a b = .ok g' →
      g'.disconnect? a b = some g ∧ g'.disconnect? b a = some g) ∧
    ∀ o i, ⟨o, i⟩ ∈ g.connections → ∃ without again,
      g.disconnect? o i = some without ∧ g.disconnect? i o = some without ∧
      without.connectUnchecked o i = .ok again ∧ without.connectUnchecked i o = .ok again ∧
      again.connections = g.connections.filter (· ≠ ⟨o, i⟩) ++ [⟨o, i⟩] ∧
      (∀ p, again.peer? p = g.peer? p) ∧ (∀ p, again.resolvedKind p = g.resolvedKind p) ∧
      ∀ config, again.build config = g.build config := by
  have wired := Reachable.wired h
  have acyclic := Reachable.acyclic h
  constructor
  · rintro a b g' (done | done)
    · exact wired.disconnect?_connectIf done
    · exact wired.disconnect?_connectIf done
  · intro o i hc
    have oriented : g.Oriented o i o i := wired.oriented hc
    have reorders := wired.reorders_unlink_link hc
    refine ⟨g.unlink o i, (g.unlink o i).link o i, ?_, ?_, ?_, ?_, ?_, ?_, ?_, ?_⟩
    · exact (disconnect?_eq_some_iff ..).2 ⟨o, i, oriented, hc, rfl⟩
    · exact (disconnect?_eq_some_iff ..).2 ⟨o, i, oriented.symm, hc, rfl⟩
    · exact wired.connectUnchecked_unlink acyclic oriented hc
    · exact wired.connectUnchecked_unlink acyclic oriented.symm hc
    · change g.connections.erase _ ++ _ = _
      rw [wired.one_feeder.nodup.erase_eq_filter]
      congr 1
      exact List.filter_congr fun c _ => by rw [bne, decide_not, beq_eq_decide]
    · exact reorders.peer?
    · exact reorders.resolvedKind
    · exact reorders.like.build

def budding : Graph :=
  [.add "ball" (.sphere false), .add "smooth" (.computeNormals true),
    .add "flat" (.computeNormals true), .connect (.output 0 0) (.input 1 0)].foldl Edit.apply .empty

def branched : Graph := (Edit.connect (.output 0 0) (.input 2 0)).apply budding

theorem reachable_budding : budding.Reachable :=
  ReachableBy.foldl .empty _ (by decide +kernel)

/-- The second branch is taken back without a trace; the first one comes second when it is made
again. -/
theorem undone_branched :
    branched.disconnect? (.input 2 0) (.output 0 0) = some budding ∧ ∃ without again,
      branched.disconnect? (.output 0 0) (.input 1 0) = some without ∧
      without.connectUnchecked (.output 0 0) (.input 1 0) = .ok again ∧
      again.connections = [⟨.output 0 0, .input 2 0⟩, ⟨.output 0 0, .input 1 0⟩] ∧
      again.build {} = branched.build {} := by
  constructor
  · have back := (Reachable.undoes reachable_budding).1 (.output 0 0) (.input 2 0) branched
      (.inl rfl)
    exact back.2
  · have reached : branched.Reachable := .edit _ reachable_budding trivial
    obtain ⟨without, again, taken, -, made, -, connections, -, -, build⟩ :=
      (Reachable.undoes reached).2 (.output 0 0) (.input 1 0) (by decide +kernel)
    refine ⟨without, again, taken, made, connections.trans ?_, build {}⟩
    decide +kernel

end Graph
end MeshFlow
