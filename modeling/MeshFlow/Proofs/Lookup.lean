import MeshFlow.Graph.Wiring
import MeshFlow.Proofs.Entries

set_option autoImplicit false

/-!
# Looking up blocks and sockets

What a lookup answers after each change to a graph: one equation for blocks and one for sockets,
however the change is carried out. Later modules cite these and never open a change again.
-/
namespace MeshFlow

theorem lookup_map_at (nodes : List (BlockId × Node)) (id k : BlockId) (f : Node → Node) :
    (nodes.map fun (j, n) => if j = id then (j, f n) else (j, n)).lookup k
      = if k = id then (nodes.lookup k).map f else nodes.lookup k := by
  induction nodes with
  | nil => simp
  | cons entry rest ih =>
    obtain ⟨j, n⟩ := entry
    rw [List.map_cons, lookup_cons_ite]
    by_cases hj : j = id
    · simp only [hj, if_true, lookup_cons_ite, ih]
      split <;> simp
    · simp only [hj, if_false, lookup_cons_ite, ih]
      by_cases hk : k = j
      · simp [hk, hj]
      · simp [hk]

theorem lookup_insertNode (nodes : List (BlockId × Node)) (id k : BlockId) (node : Node) :
    (Graph.insertNode id node nodes).lookup k = if k = id then some node else nodes.lookup k := by
  rw [insertNode_eq, lookup_insertEntry]

theorem lookup_of_mem_sorted {nodes : List (BlockId × Node)}
    (sorted : nodes.Pairwise fun a b => a.1 < b.1) {id : BlockId} {n : Node}
    (h : (id, n) ∈ nodes) : nodes.lookup id = some n := by
  induction sorted with
  | nil => simp at h
  | @cons entry rest first _ ih =>
    obtain ⟨j, m⟩ := entry
    rw [lookup_cons_ite]
    rcases List.mem_cons.1 h with same | later
    · cases same
      simp
    · have different : id ≠ j := fun same => absurd (first _ later) (by simp [same])
      rw [if_neg different, ih later]

theorem insertNode_sorted {nodes : List (BlockId × Node)}
    (sorted : nodes.Pairwise fun a b => a.1 < b.1) (id : BlockId) (node : Node) :
    (Graph.insertNode id node nodes).Pairwise fun a b => a.1 < b.1 := by
  rw [insertNode_eq]
  exact insertEntry_sorted UInt32.lt_trans
    (fun notBelow different =>
      UInt32.lt_of_le_of_ne (UInt32.not_lt.1 notBelow) (Ne.symm different))
    sorted id node

namespace Node

theorem socket?_modifySocket (n : Node) (side side' : Side) (index index' : Nat)
    (f : MeshFlow.Socket → MeshFlow.Socket) :
    (n.modifySocket side index f).socket? side' index'
      = if side' = side ∧ index' = index then (n.socket? side' index').map f
        else n.socket? side' index' := by
  cases side <;> cases side' <;>
    simp [modifySocket, socket?, sockets, List.getElem?_modify, eq_comm] <;> split <;> simp_all

@[simp] theorem name_modifySocket (n : Node) (side : Side) (index : Nat)
    (f : MeshFlow.Socket → MeshFlow.Socket) : (n.modifySocket side index f).name = n.name := by
  cases side <;> rfl

@[simp] theorem block_modifySocket (n : Node) (side : Side) (index : Nat)
    (f : MeshFlow.Socket → MeshFlow.Socket) : (n.modifySocket side index f).block = n.block := by
  cases side <;> rfl

end Node

namespace Graph

theorem node?_modifyNode (g : Graph) (id k : BlockId) (f : Node → Node) :
    (g.modifyNode id f).node? k = if k = id then (g.node? k).map f else g.node? k :=
  lookup_map_at ..

theorem node?_modifySocket (g : Graph) (p : SocketId) (k : BlockId)
    (f : MeshFlow.Socket → MeshFlow.Socket) :
    (g.modifySocket p f).node? k
      = if k = p.block then (g.node? k).map (·.modifySocket p.side p.index f) else g.node? k :=
  node?_modifyNode ..

theorem le_last (id : BlockId) : id ≤ .last :=
  UInt32.le_iff_toNat_le.2 (Nat.le_of_lt_succ id.toNat_lt)

theorem numberAfter_eq_ok_iff (id above : BlockId) :
    numberAfter id = .ok above ↔ id ≠ .last ∧ above = id + 1 := by
  rw [numberAfter]
  split
  · rename_i last
    simp [last]
  · rename_i other
    rw [Except.ok.injEq, eq_comm]
    simp [other]

theorem numberAfter_last : numberAfter .last = .error .overflow := rfl

theorem add_eq_ok_iff (g g' : Graph) (id : BlockId) (name : String) (block : Block) :
    g.add name block = .ok (id, g') ↔ g.nextId ≠ .last ∧ id = g.nextId ∧ g' = {
      g with
      nodes := insertNode g.nextId (.ofBlock name block) g.nodes
      nextId := g.nextId + 1 } := by
  rw [add]
  by_cases last : g.nextId = .last
  · simp [last, numberAfter_last, bind, Except.bind]
  · rw [(numberAfter_eq_ok_iff ..).2 ⟨last, rfl⟩]
    simp only [bind, Except.bind, pure, Except.pure, Except.ok.injEq, Prod.mk.injEq]
    rw [eq_comm (a := g.nextId), eq_comm (b := g')]
    exact (and_iff_right last).symm

theorem insert_eq_ok_iff (g g' : Graph) (id : BlockId) (name : String) (block : Block) :
    g.insert id name block = .ok g' ↔ g.hasBlock id = false ∧ id ≠ .last ∧ g' = {
      g with
      nodes := insertNode id (.ofBlock name block) g.nodes
      nextId := if g.nextId ≤ id + 1 then id + 1 else g.nextId } := by
  rw [insert]
  cases taken : g.hasBlock id with
  | true => simp
  | false =>
    by_cases last : id = .last
    · simp [last, numberAfter_last, bind, Except.bind]
    · rw [(numberAfter_eq_ok_iff ..).2 ⟨last, rfl⟩]
      simp [last, bind, Except.bind, pure, Except.pure, eq_comm]

theorem map_add_eq_ok_iff (g g' : Graph) (name : String) (block : Block) :
    (g.add name block).map Prod.snd = .ok g' ↔ g.add name block = .ok (g.nextId, g') := by
  cases added : g.add name block with
  | error e => simp [Except.map]
  | ok made =>
    obtain ⟨id, made⟩ := made
    obtain ⟨-, rfl, -⟩ := (add_eq_ok_iff ..).1 added
    simp [Except.map]

theorem node?_add {g g' : Graph} {id : BlockId} {name : String} {block : Block}
    (h : g.add name block = .ok (id, g')) (k : BlockId) :
    g'.node? k = if k = id then some (.ofBlock name block) else g.node? k := by
  obtain ⟨-, rfl, rfl⟩ := (add_eq_ok_iff ..).1 h
  exact lookup_insertNode ..

theorem node?_insert {g g' : Graph} {id : BlockId} {name : String} {block : Block}
    (h : g.insert id name block = .ok g') (k : BlockId) :
    g'.node? k = if k = id then some (.ofBlock name block) else g.node? k := by
  obtain ⟨-, -, rfl⟩ := (insert_eq_ok_iff ..).1 h
  exact lookup_insertNode ..

theorem socket?_modifySocket (g : Graph) (p q : SocketId)
    (f : MeshFlow.Socket → MeshFlow.Socket) :
    (g.modifySocket p f).socket? q
      = if q = p then (g.socket? q).map f else g.socket? q := by
  obtain ⟨block, side, index⟩ := p
  obtain ⟨block', side', index'⟩ := q
  simp only [socket?, node?_modifySocket, SocketId.mk.injEq]
  by_cases hb : block' = block
  · cases h : g.node? block' with
    | none => simp
    | some n =>
      simp only [hb, if_true, Option.map_some, Option.bind_some, Node.socket?_modifySocket,
        true_and]
  · simp [hb]

theorem socket?_of_node? {g : Graph} {p : SocketId} {n : Node} (h : g.node? p.block = some n) :
    g.socket? p = n.socket? p.side p.index := by
  rw [socket?, h, Option.bind_some]

theorem node?_of_socket? {g : Graph} {p : SocketId} {socket : MeshFlow.Socket}
    (h : g.socket? p = some socket) :
    ∃ n, g.node? p.block = some n ∧ n.socket? p.side p.index = some socket := by
  rw [socket?, Option.bind_eq_some_iff] at h
  exact h

theorem hasBlock_modifyNode (g : Graph) (id k : BlockId) (f : Node → Node) :
    (g.modifyNode id f).hasBlock k = g.hasBlock k := by
  rw [hasBlock, node?_modifyNode, hasBlock]
  split <;> simp

theorem hasBlock_modifySocket (g : Graph) (p : SocketId) (k : BlockId)
    (f : MeshFlow.Socket → MeshFlow.Socket) :
    (g.modifySocket p f).hasBlock k = g.hasBlock k :=
  hasBlock_modifyNode ..

theorem modifyNode_sorted {g : Graph} (sorted : g.nodes.Pairwise fun a b => a.1 < b.1)
    (id : BlockId) (f : Node → Node) :
    (g.modifyNode id f).nodes.Pairwise fun a b => a.1 < b.1 := by
  refine List.Pairwise.map _ (fun a b lt => ?_) sorted
  dsimp only
  split <;> split <;> exact lt

theorem modifySocket_sorted {g : Graph} (sorted : g.nodes.Pairwise fun a b => a.1 < b.1)
    (p : SocketId) (f : MeshFlow.Socket → MeshFlow.Socket) :
    (g.modifySocket p f).nodes.Pairwise fun a b => a.1 < b.1 :=
  modifyNode_sorted sorted ..

theorem socket?_link (g : Graph) (o i p : SocketId) :
    (g.link o i).socket? p = (g.socket? p).map fun s =>
      { s with
        peer := if p = i then some o else s.peer
        endpoints := if p = o then s.endpoints ++ [i] else s.endpoints } := by
  change ((g.modifySocket i _).modifySocket o _).socket? p = _
  rw [socket?_modifySocket, socket?_modifySocket]
  cases g.socket? p with
  | none => simp
  | some s =>
    simp only [Option.map_some]
    split <;> split <;> rfl

theorem socket?_unlink (g : Graph) (o i p : SocketId) :
    (g.unlink o i).socket? p = (g.socket? p).map fun s =>
      { s with
        peer := if p = i then none else s.peer
        endpoints := if p = o then s.endpoints.filter (· ≠ i) else s.endpoints } := by
  change ((Graph.modifySocket { g with connections := _ } i _).modifySocket o _).socket? p = _
  rw [socket?_modifySocket, socket?_modifySocket]
  change (if p = o then Option.map _ (if p = i then Option.map _ (g.socket? p) else g.socket? p)
    else if p = i then Option.map _ (g.socket? p) else g.socket? p) = _
  cases g.socket? p with
  | none => simp
  | some s =>
    simp only [Option.map_some]
    split <;> split <;> rfl

theorem hasBlock_link (g : Graph) (o i : SocketId) (id : BlockId) :
    (g.link o i).hasBlock id = g.hasBlock id := by
  change ((g.modifySocket i _).modifySocket o _).hasBlock id = _
  rw [hasBlock_modifySocket, hasBlock_modifySocket]

theorem hasBlock_unlink (g : Graph) (o i : SocketId) (id : BlockId) :
    (g.unlink o i).hasBlock id = g.hasBlock id := by
  change ((Graph.modifySocket { g with connections := _ } i _).modifySocket o _).hasBlock id = _
  rw [hasBlock_modifySocket, hasBlock_modifySocket]
  rfl

end Graph
end MeshFlow
