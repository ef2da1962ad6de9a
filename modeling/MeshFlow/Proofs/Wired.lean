import Mathlib.Data.List.Nodup
import MeshFlow.Proofs.Edits

set_option autoImplicit false

/-!
# Connections are the same in all three places

`Wired` says what the list of connections decides: it gives every socket its peer and its
endpoints. Each change to a graph is followed through the list alone, and the sockets come after.
-/
namespace MeshFlow

def feederIn (cs : List Connection) (p : SocketId) : Option SocketId :=
  (cs.find? (·.input = p)).map (·.output)

def fedIn (cs : List Connection) (p : SocketId) : List SocketId :=
  (cs.filter (·.output = p)).map (·.input)

def OneFeeder (cs : List Connection) : Prop := (cs.map (·.input)).Nodup

theorem OneFeeder.nodup {cs : List Connection} (h : OneFeeder cs) : cs.Nodup :=
  List.Nodup.of_map _ h

theorem OneFeeder.eq_of_input {cs : List Connection} (h : OneFeeder cs) {c d : Connection}
    (hc : c ∈ cs) (hd : d ∈ cs) (same : c.input = d.input) : c = d :=
  List.inj_on_of_nodup_map h hc hd same

theorem OneFeeder.filter {cs : List Connection} (h : OneFeeder cs) (keep : Connection → Bool) :
    OneFeeder (cs.filter keep) :=
  List.Sublist.nodup (List.filter_sublist.map _) h

theorem feederIn_eq_some_iff {cs : List Connection} (h : OneFeeder cs) (o i : SocketId) :
    feederIn cs i = some o ↔ ⟨o, i⟩ ∈ cs := by
  constructor
  · intro found
    obtain ⟨c, hc, rfl⟩ := Option.map_eq_some_iff.1 found
    have input : c.input = i := by simpa using List.find?_some hc
    exact input ▸ List.mem_of_find?_eq_some hc
  · intro mem
    have some : (cs.find? (·.input = i)).isSome := by
      rw [List.find?_isSome]
      exact ⟨⟨o, i⟩, mem, by simp⟩
    obtain ⟨c, hc⟩ := Option.isSome_iff_exists.1 some
    have input : c.input = i := by simpa using List.find?_some hc
    have same : c = ⟨o, i⟩ := h.eq_of_input (List.mem_of_find?_eq_some hc) mem input
    rw [feederIn, hc, same]
    rfl

theorem feederIn_eq_none_iff (cs : List Connection) (p : SocketId) :
    feederIn cs p = none ↔ ∀ c ∈ cs, c.input ≠ p := by
  simp [feederIn]

theorem feederIn_append {cs : List Connection} {c : Connection}
    (free : feederIn cs c.input = none) (p : SocketId) :
    feederIn (cs ++ [c]) p = if p = c.input then some c.output else feederIn cs p := by
  rw [feederIn, List.find?_append, Option.map_or]
  by_cases h : p = c.input
  · subst h
    rw [← feederIn, free]
    simp
  · have : ¬ c.input = p := fun same => h same.symm
    simp [h, this, feederIn]

theorem fedIn_append (cs : List Connection) (c : Connection) (p : SocketId) :
    fedIn (cs ++ [c]) p = if p = c.output then fedIn cs p ++ [c.input] else fedIn cs p := by
  by_cases h : p = c.output
  · simp [fedIn, h]
  · have : ¬ c.output = p := fun same => h same.symm
    simp [fedIn, h, this]

theorem feederIn_filter {cs : List Connection} (h : OneFeeder cs) (keep : Connection → Bool)
    (p : SocketId) :
    feederIn (cs.filter keep) p = (feederIn cs p).filter fun o => keep ⟨o, p⟩ := by
  ext o
  rw [feederIn_eq_some_iff (h.filter keep), List.mem_filter, Option.filter_eq_some_iff,
    feederIn_eq_some_iff h]

theorem feederIn_erase {cs : List Connection} (h : OneFeeder cs) {c : Connection} (hc : c ∈ cs)
    (p : SocketId) :
    feederIn (cs.erase c) p = if p = c.input then none else feederIn cs p := by
  rw [h.nodup.erase_eq_filter, feederIn_filter h]
  split
  · rename_i same
    subst same
    rw [(feederIn_eq_some_iff h c.output c.input).2 hc]
    simp
  · rename_i other
    cases found : feederIn cs p with
    | none => rfl
    | some o =>
      have : (⟨o, p⟩ : Connection) ≠ c := fun same => other (by rw [← same])
      simp [this]

theorem fedIn_erase {cs : List Connection} (h : OneFeeder cs) (c : Connection) (p : SocketId) :
    fedIn (cs.erase c) p
      = if p = c.output then (fedIn cs p).filter (· ≠ c.input) else fedIn cs p := by
  rw [h.nodup.erase_eq_filter, fedIn, fedIn, List.filter_filter]
  split
  · rename_i same
    subst same
    rw [List.filter_map, List.filter_filter]
    congr 1
    apply List.filter_congr
    intro d _
    obtain ⟨o, i⟩ := c
    obtain ⟨o', i'⟩ := d
    by_cases ho : o' = o <;> by_cases hi : i' = i <;> simp [ho, hi]
  · rename_i other
    congr 1
    apply List.filter_congr
    intro d _
    by_cases ho : d.output = p
    · have : d ≠ c := fun same => other (by rw [← same, ho])
      simp [ho, this]
    · simp [ho]

namespace Graph

/-- The records of a graph agree. -/
structure Wired (g : Graph) : Prop where
  sorted : g.nodes.Pairwise fun a b => a.1 < b.1
  id_lt : ∀ id, g.hasBlock id → id < g.nextId
  /-- Connections lead from outputs to inputs that are there. -/
  ends : ∀ c ∈ g.connections, c.output.side = .output ∧ c.input.side = .input ∧
    (g.socket? c.output).isSome ∧ (g.socket? c.input).isSome
  one_feeder : OneFeeder g.connections
  peer_eq : ∀ p socket, g.socket? p = some socket → socket.peer = feederIn g.connections p
  endpoints_eq : ∀ p socket, g.socket? p = some socket →
    socket.endpoints = fedIn g.connections p
  output_exists : ∀ id, g.output = some id → g.hasBlock id

/-- What agrees in any graph that is being put together, whatever its numbers and its output. -/
structure Linked (g : Graph) : Prop where
  ends : ∀ c ∈ g.connections, c.output.side = .output ∧ c.input.side = .input ∧
    (g.socket? c.output).isSome ∧ (g.socket? c.input).isSome
  one_feeder : OneFeeder g.connections
  peer_eq : ∀ p socket, g.socket? p = some socket → socket.peer = feederIn g.connections p
  endpoints_eq : ∀ p socket, g.socket? p = some socket →
    socket.endpoints = fedIn g.connections p

theorem Wired.linked {g : Graph} (h : g.Wired) : g.Linked :=
  ⟨h.ends, h.one_feeder, h.peer_eq, h.endpoints_eq⟩

theorem Linked.peer?_eq {g : Graph} (h : g.Linked) (p : SocketId) :
    g.peer? p = feederIn g.connections p := by
  rw [peer?]
  cases hs : g.socket? p with
  | some socket => rw [Option.bind_some, h.peer_eq p socket hs]
  | none =>
    rw [Option.bind_none, eq_comm, feederIn_eq_none_iff]
    rintro c hc rfl
    obtain ⟨-, -, -, exists_⟩ := h.ends c hc
    simp [hs] at exists_

theorem Linked.peer?_of_output {g : Graph} (h : g.Linked) {p : SocketId} (side : p.side = .output) :
    g.peer? p = none := by
  rw [h.peer?_eq, feederIn_eq_none_iff]
  rintro c hc rfl
  have input := (h.ends c hc).2.1
  rw [side] at input
  cases input

theorem Linked.endpoints_eq_nil {g : Graph} (h : g.Linked) {p : SocketId} (side : p.side = .input)
    {socket : MeshFlow.Socket} (hs : g.socket? p = some socket) : socket.endpoints = [] := by
  rw [h.endpoints_eq p socket hs, fedIn, List.map_eq_nil_iff, List.filter_eq_nil_iff]
  intro c hc leads
  have output := (h.ends c hc).1
  rw [of_decide_eq_true leads, side] at output
  cases output

theorem Linked.inputs_eq {g g' : Graph} (h : g.Linked) (h' : g'.Linked) {id : BlockId}
    {n n' : Node} (hn : g.node? id = some n) (hn' : g'.node? id = some n')
    (same : n'.inputs.map (fun s => (s.spec, s.default?, s.peer))
      = n.inputs.map fun s => (s.spec, s.default?, s.peer)) : n'.inputs = n.inputs := by
  apply List.ext_getElem?
  intro index
  have here := congrArg (·[index]?) same
  simp only [List.getElem?_map] at here
  cases hs : n.inputs[index]? with
  | none => simpa [hs] using here
  | some s =>
    rw [hs, Option.map_some, Option.map_eq_some_iff] at here
    obtain ⟨s', hs', eq⟩ := here
    have none : s.endpoints = [] :=
      h.endpoints_eq_nil (p := .input id index) rfl ((socket?_of_node? hn).trans hs)
    have none' : s'.endpoints = [] :=
      h'.endpoints_eq_nil (p := .input id index) rfl ((socket?_of_node? hn').trans hs')
    rw [hs']
    cases s
    cases s'
    cases eq
    cases none
    cases none'
    rfl

theorem Wired.empty : Wired .empty where
  sorted := .nil
  id_lt _ h := by simp [hasBlock, node?, Graph.empty] at h
  ends _ h := by simp [Graph.empty] at h
  one_feeder := List.nodup_nil
  peer_eq _ _ h := by simp [socket?, node?, Graph.empty] at h
  endpoints_eq _ _ h := by simp [socket?, node?, Graph.empty] at h
  output_exists _ h := by simp [Graph.empty] at h

theorem Wired.blocks {g : Graph} (h : g.Wired) {c : Connection} (hc : c ∈ g.connections) :
    g.hasBlock c.output.block ∧ g.hasBlock c.input.block := by
  obtain ⟨-, -, output, input⟩ := h.ends c hc
  constructor
  · obtain ⟨socket, hs⟩ := Option.isSome_iff_exists.1 output
    obtain ⟨n, hn, -⟩ := node?_of_socket? hs
    simp [hasBlock, hn]
  · obtain ⟨socket, hs⟩ := Option.isSome_iff_exists.1 input
    obtain ⟨n, hn, -⟩ := node?_of_socket? hs
    simp [hasBlock, hn]

def endsAt (g : Graph) (p : SocketId) : Option (Option SocketId × List SocketId) :=
  (g.socket? p).map fun s => (s.peer, s.endpoints)

theorem Linked.of_same_ends {g g' : Graph} (h : g.Linked) (same : ∀ p, g'.endsAt p = g.endsAt p)
    (connections : g'.connections = g.connections) : g'.Linked := by
  have isSome : ∀ p, (g'.socket? p).isSome = (g.socket? p).isSome := by
    intro p
    have := congrArg Option.isSome (same p)
    simpa only [endsAt, Option.isSome_map] using this
  have back : ∀ p socket, g'.socket? p = some socket →
      ∃ old, g.socket? p = some old ∧ old.peer = socket.peer ∧
        old.endpoints = socket.endpoints := by
    intro p socket hs
    have := same p
    rw [endsAt, endsAt, hs, Option.map_some, eq_comm, Option.map_eq_some_iff] at this
    obtain ⟨old, ho, heq⟩ := this
    exact ⟨old, ho, congrArg Prod.fst heq, congrArg Prod.snd heq⟩
  constructor
  · intro c hc
    rw [isSome, isSome]
    exact h.ends c (connections ▸ hc)
  · rw [connections]
    exact h.one_feeder
  · intro p socket hs
    obtain ⟨old, ho, peer, -⟩ := back p socket hs
    rw [connections, ← peer, h.peer_eq p old ho]
  · intro p socket hs
    obtain ⟨old, ho, -, endpoints⟩ := back p socket hs
    rw [connections, ← endpoints, h.endpoints_eq p old ho]

theorem Wired.of_same_ends {g g' : Graph} (h : g.Wired)
    (sorted : g'.nodes.Pairwise fun a b => a.1 < b.1)
    (blocks : ∀ id, g'.hasBlock id = g.hasBlock id)
    (same : ∀ p, g'.endsAt p = g.endsAt p)
    (connections : g'.connections = g.connections) (nextId : g'.nextId = g.nextId)
    (output : ∀ id, g'.output = some id → g.hasBlock id) : g'.Wired := by
  obtain ⟨ends, one_feeder, peer_eq, endpoints_eq⟩ := h.linked.of_same_ends same connections
  refine ⟨sorted, fun id hid => ?_, ends, one_feeder, peer_eq, endpoints_eq, fun id hid => ?_⟩
  · rw [nextId]
    exact h.id_lt id (blocks id ▸ hid)
  · rw [blocks]
    exact output id hid

theorem Wired.insertNode {g : Graph} (h : g.Wired) {id next : BlockId} {node : Node}
    (fresh : g.hasBlock id = false) (le : g.nextId ≤ next) (lt : id < next)
    (bare : ∀ side index s, node.socket? side index = some s → s.peer = none ∧ s.endpoints = []) :
    Wired { g with nodes := Graph.insertNode id node g.nodes, nextId := next } := by
  let g' : Graph := { g with nodes := Graph.insertNode id node g.nodes, nextId := next }
  have node? : ∀ k, g'.node? k = if k = id then some node else g.node? k :=
    fun k => lookup_insertNode ..
  have elsewhere : ∀ p : SocketId, p.block ≠ id → g'.socket? p = g.socket? p := by
    intro p hp
    rw [socket?, node?, if_neg hp, socket?]
  -- no connection touches the new block, because the old graph does not have it
  have away : ∀ c ∈ g.connections, c.output.block ≠ id ∧ c.input.block ≠ id := by
    intro c hc
    obtain ⟨output, input⟩ := h.blocks hc
    constructor
    · rintro rfl
      simp [fresh] at output
    · rintro rfl
      simp [fresh] at input
  have here : ∀ p socket, p.block = id → g'.socket? p = some socket →
      socket.peer = none ∧ socket.endpoints = [] := by
    intro p socket hp hs
    rw [socket?, node?, if_pos hp] at hs
    exact bare _ _ _ hs
  constructor
  · exact insertNode_sorted h.sorted ..
  · intro k hk
    change (g'.node? k).isSome at hk
    rw [node?] at hk
    split at hk
    · rename_i same
      exact same ▸ lt
    · exact UInt32.lt_of_lt_of_le (h.id_lt k hk) le
  · intro c hc
    change c ∈ g.connections at hc
    obtain ⟨ho, hi⟩ := away c hc
    change _ ∧ _ ∧ (g'.socket? c.output).isSome ∧ (g'.socket? c.input).isSome
    rw [elsewhere _ ho, elsewhere _ hi]
    exact h.ends c hc
  · exact h.one_feeder
  · intro p socket hs
    change g'.socket? p = some socket at hs
    by_cases hp : p.block = id
    · rw [(here p socket hp hs).1, eq_comm, feederIn_eq_none_iff]
      rintro c hc rfl
      exact (away c hc).2 hp
    · rw [elsewhere p hp] at hs
      exact h.peer_eq p socket hs
  · intro p socket hs
    change g'.socket? p = some socket at hs
    by_cases hp : p.block = id
    · rw [(here p socket hp hs).2, eq_comm, fedIn, List.map_eq_nil_iff, List.filter_eq_nil_iff]
      intro c hc
      have : c.output ≠ p := by
        rintro rfl
        exact (away c hc).1 hp
      simpa using this
    · rw [elsewhere p hp] at hs
      exact h.endpoints_eq p socket hs
  · intro k hk
    change (g'.node? k).isSome
    rw [node?]
    split
    · rfl
    · exact h.output_exists k hk

theorem Linked.link {g : Graph} (h : g.Linked) {o i : SocketId} (ho : o.side = .output)
    (hi : i.side = .input) (hso : (g.socket? o).isSome) {target : MeshFlow.Socket}
    (hsi : g.socket? i = some target) (free : target.peer = none) : (g.link o i).Linked := by
  have unfed : feederIn g.connections i = none := by rw [← h.peer_eq i target hsi, free]
  constructor
  · intro c hc
    rw [socket?_link, socket?_link, Option.isSome_map, Option.isSome_map]
    rcases List.mem_append.1 hc with old | new
    · exact h.ends c old
    · rw [List.mem_singleton.1 new]
      exact ⟨ho, hi, hso, by rw [hsi]; rfl⟩
  · change (List.map _ (g.connections ++ [_])).Nodup
    rw [List.map_append, List.nodup_append]
    refine ⟨h.one_feeder, List.nodup_singleton _, ?_⟩
    rintro a ha b hb rfl
    obtain ⟨c, hc, hci⟩ := List.mem_map.1 ha
    rw [feederIn_eq_none_iff] at unfed
    exact unfed c hc (hci.trans (List.mem_singleton.1 hb))
  · intro p socket hs
    rw [socket?_link, Option.map_eq_some_iff] at hs
    obtain ⟨old, hold, rfl⟩ := hs
    change (if p = i then some o else old.peer) = feederIn (g.connections ++ [⟨o, i⟩]) p
    rw [feederIn_append unfed, h.peer_eq p old hold]
  · intro p socket hs
    rw [socket?_link, Option.map_eq_some_iff] at hs
    obtain ⟨old, hold, rfl⟩ := hs
    change (if p = o then old.endpoints ++ [i] else old.endpoints)
      = fedIn (g.connections ++ [⟨o, i⟩]) p
    rw [fedIn_append, h.endpoints_eq p old hold]

theorem Wired.link {g : Graph} (h : g.Wired) {o i : SocketId} (ho : o.side = .output)
    (hi : i.side = .input) (hso : (g.socket? o).isSome) {target : MeshFlow.Socket}
    (hsi : g.socket? i = some target) (free : target.peer = none) : (g.link o i).Wired := by
  obtain ⟨ends, one_feeder, peer_eq, endpoints_eq⟩ := h.linked.link ho hi hso hsi free
  refine ⟨?_, fun id hid => ?_, ends, one_feeder, peer_eq, endpoints_eq, fun id hid => ?_⟩
  · exact modifySocket_sorted (modifySocket_sorted h.sorted _ _) _ _
  · rw [hasBlock_link] at hid
    exact h.id_lt id hid
  · rw [hasBlock_link]
    exact h.output_exists id hid

theorem Wired.unlink {g : Graph} (h : g.Wired) {o i : SocketId}
    (hc : ⟨o, i⟩ ∈ g.connections) : (g.unlink o i).Wired := by
  constructor
  · exact modifySocket_sorted (modifySocket_sorted h.sorted _ _) _ _
  · intro id hid
    rw [hasBlock_unlink] at hid
    exact h.id_lt id hid
  · intro c mem
    rw [socket?_unlink, socket?_unlink, Option.isSome_map, Option.isSome_map]
    exact h.ends c (List.mem_of_mem_erase mem)
  · change (List.map _ (g.connections.erase _)).Nodup
    rw [h.one_feeder.nodup.erase_eq_filter]
    exact h.one_feeder.filter _
  · intro p socket hs
    rw [socket?_unlink, Option.map_eq_some_iff] at hs
    obtain ⟨old, hold, rfl⟩ := hs
    change (if p = i then none else old.peer) = feederIn (g.connections.erase ⟨o, i⟩) p
    rw [feederIn_erase h.one_feeder hc, h.peer_eq p old hold]
  · intro p socket hs
    rw [socket?_unlink, Option.map_eq_some_iff] at hs
    obtain ⟨old, hold, rfl⟩ := hs
    change (if p = o then old.endpoints.filter (· ≠ i) else old.endpoints)
      = fedIn (g.connections.erase ⟨o, i⟩) p
    rw [fedIn_erase h.one_feeder, h.endpoints_eq p old hold]
  · intro id hid
    rw [hasBlock_unlink]
    exact h.output_exists id hid

end Graph
end MeshFlow
