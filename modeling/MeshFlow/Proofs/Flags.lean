import MeshFlow.Proofs.Outcome
import MeshFlow.Proofs.Standard
import MeshFlow.Proofs.Steady

set_option autoImplicit false

/-!
# When outputs are worked out

Blocks say by a flag whether their output is worked out at every read or once. In a graph of steady
blocks every output has one value, given by recursion over what feeds it, and a build comes to that
value whatever the flags are.
-/
namespace MeshFlow.Graph

def withFlags (g : Graph) (everyRead : BlockId → Bool) : Graph :=
  { g with
    nodes := g.nodes.map fun (id, n) =>
      (id, { n with block := n.block.withEveryRead (everyRead id) }) }

variable {g : Graph}

theorem node?_withFlags (g : Graph) (everyRead : BlockId → Bool) (id : BlockId) :
    (g.withFlags everyRead).node? id
      = (g.node? id).map fun n => { n with block := n.block.withEveryRead (everyRead id) } := by
  have lookup : ∀ nodes : List (BlockId × Node), (nodes.map fun (id, n) =>
        (id, { n with block := n.block.withEveryRead (everyRead id) })).lookup id
      = (nodes.lookup id).map fun n =>
        { n with block := n.block.withEveryRead (everyRead id) } := by
    intro nodes
    induction nodes with
    | nil => rfl
    | cons entry rest ih =>
      obtain ⟨k, n⟩ := entry
      rw [List.map_cons, lookup_cons_ite, lookup_cons_ite]
      by_cases here : id = k
      · simp [here]
      · rw [if_neg here, if_neg here, ih]
  exact lookup g.nodes

theorem socket?_withFlags (g : Graph) (everyRead : BlockId → Bool) (p : SocketId) :
    (g.withFlags everyRead).socket? p = g.socket? p := by
  rw [socket?, node?_withFlags, socket?]
  cases g.node? p.block with
  | none => rfl
  | some n => cases hs : p.side <;> rfl

theorem hasBlock_withFlags (g : Graph) (everyRead : BlockId → Bool) (id : BlockId) :
    (g.withFlags everyRead).hasBlock id = g.hasBlock id := by
  rw [hasBlock, node?_withFlags, hasBlock, Option.isSome_map]

theorem Wired.withFlags (h : g.Wired) (everyRead : BlockId → Bool) :
    (g.withFlags everyRead).Wired := by
  refine h.of_same_ends ?_ (hasBlock_withFlags g everyRead) ?_ rfl rfl h.output_exists
  · exact List.Pairwise.map _ (fun a b lt => lt) h.sorted
  · intro p
    rw [endsAt, socket?_withFlags, endsAt]

theorem feeds_withFlags (g : Graph) (everyRead : BlockId → Bool) (a b : BlockId) :
    (g.withFlags everyRead).Feeds a b ↔ g.Feeds a b := by
  rw [feeds_iff, feeds_iff, node?_withFlags]
  cases g.node? b <;> simp [Node.peers]

theorem Acyclic.withFlags (h : g.Acyclic) (everyRead : BlockId → Bool) :
    (g.withFlags everyRead).Acyclic :=
  h.of_le fun a b => (feeds_withFlags g everyRead a b).1

/-- What an input yields where every output has one value. -/
def inputValue (g : Graph) (value : SocketId → Value) (p : SocketId) : Value :=
  match g.socket? p with
  | none => .null
  | some socket =>
    match socket.peer with
    | some output => value output
    | none => socket.default?.getD .null

/-- The value of an output, where fewer than `steps` blocks stand above one another. -/
def valueWithin (g : Graph) : Nat → SocketId → Value
  | 0, _ => .null
  | steps + 1, p =>
    match g.node? p.block with
    | none => .null
    | some n =>
      if n.missingInputs.isEmpty then
        n.block.outputValue (fun i => g.inputValue (g.valueWithin steps) (.input p.block i))
          (fun i => g.isConnected (.input p.block i)) p.block n.name p.index
      else .null

def valueOf (g : Graph) (p : SocketId) : Value := g.valueWithin (g.size + 1) p

def handedOver (g : Graph) (id : BlockId) : Option Value :=
  match g.node? id with
  | none => none
  | some n =>
    if n.missingInputs.isEmpty then
      n.block.handedOver (fun i => g.inputValue g.valueOf (.input id i))
        (fun i => g.isConnected (.input id i)) id n.name
    else none

end MeshFlow.Graph
