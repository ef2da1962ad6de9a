import MeshFlow.Graph.Basic

set_option autoImplicit false

/-!
# What feeds what

A block feeds another when one of its outputs is connected to an input of the other. Ancestors are
what feeds a block, directly or through others; they are found by adding suppliers of suppliers
until nothing new turns up.
-/
namespace MeshFlow.Graph

def suppliers (g : Graph) (id : BlockId) : List BlockId :=
  ((g.node? id).map fun n => n.peers.map (·.block)).getD []

/-- What feeds the members of `latest` directly and is not in `found`, without repeats. -/
def newSuppliers (g : Graph) (found latest : List BlockId) : List BlockId :=
  ((latest.flatMap g.suppliers).filter fun id => !found.contains id).eraseDups

/-- Adds to `found` what feeds it, round by round, at most `rounds` times; `latest` is what the
last round found. -/
def closeAbove (g : Graph) : (rounds : Nat) → (found latest : List BlockId) → List BlockId
  | 0, found, _ => found
  | rounds + 1, found, latest =>
    let new := g.newSuppliers found latest
    if new.isEmpty then found else g.closeAbove rounds (new ++ found) new

/-- How many inputs of blocks are connected, which bounds how many blocks feed others. -/
def connectedInputs (g : Graph) : Nat := (g.nodes.flatMap fun (_, n) => n.peers).length

def ancestors (g : Graph) (id : BlockId) : List BlockId :=
  let direct := (g.suppliers id).eraseDups
  g.closeAbove (g.connectedInputs + 1) direct direct

def isAncestorOf (g : Graph) (ancestor id : BlockId) : Bool := (g.ancestors id).contains ancestor

/-- `a` has an output that is connected to an input of `b`. -/
def Feeds (g : Graph) (a b : BlockId) : Prop := a ∈ g.suppliers b

/-- `a` feeds `b`, directly or through others. -/
inductive Reaches (g : Graph) : BlockId → BlockId → Prop where
  | single {a b : BlockId} : g.Feeds a b → Reaches g a b
  | tail {a b c : BlockId} : Reaches g a b → g.Feeds b c → Reaches g a c

end MeshFlow.Graph
