import MeshFlow.Block.Sockets

set_option autoImplicit false

/-!
# Graphs

A graph holds blocks under their numbers, sorted by number, and connections from outputs to inputs
in the order they were made. Each connection is kept in three places: in that list, as the peer of
the input, and among the endpoints of the output.
-/
namespace MeshFlow

structure Socket where
  spec : SocketSpec
  /-- What the socket yields while it is not connected; starts out as declared. -/
  default? : Option Value := spec.default?
  /-- The output that feeds this input. -/
  peer : Option SocketId := none
  /-- The inputs that this output feeds, in the order they were connected. -/
  endpoints : List SocketId := []

def Socket.isConnected (p : Socket) : Bool := p.peer.isSome || !p.endpoints.isEmpty

structure Node where
  name : String
  block : Block
  inputs : List Socket
  outputs : List Socket

structure Connection where
  output : SocketId
  input : SocketId
  deriving DecidableEq

structure Graph where
  nodes : List (BlockId × Node) := []
  connections : List Connection := []
  /-- The number that the next block gets. -/
  nextId : BlockId := 0
  /-- The block whose value is the graph's result. -/
  output : Option BlockId := none

inductive Compatibility where
  | compatible
  | typeIncompatible
  | hierarchyIssue
  deriving DecidableEq

namespace Compatibility

def label : Compatibility → String
  | compatible => "Compatible"
  | typeIncompatible => "TypeIncompatible"
  | hierarchyIssue => "HierarchyIssue"

def message : Compatibility → String
  | compatible => "compatible"
  | typeIncompatible => "incompatible types"
  | hierarchyIssue => "connection would create a cycle"

end Compatibility

inductive GraphError where
  | blockNotFound (id : BlockId)
  | socketNotFound (block : BlockId) (socket : String)
  | directionMismatch (a b : SocketId)
  | incompatible (state : Compatibility) (output input : SocketId)
  | inputAlreadyConnected (block : BlockId) (socket : String)
  | noOutputBlock
  | duplicateBlockId (id : BlockId)
  /-- Some block feeds itself, so that there is no order to build in. -/
  | circular
  /-- The number after the last one was asked for. No program goes on after that. -/
  | overflow
  deriving DecidableEq

namespace GraphError

def label : GraphError → String
  | blockNotFound _ => "BlockNotFound"
  | socketNotFound .. => "PortNotFound"
  | directionMismatch .. => "DirectionMismatch"
  | incompatible .. => "Incompatible"
  | inputAlreadyConnected .. => "InputAlreadyConnected"
  | noOutputBlock => "NoOutputBlock"
  | duplicateBlockId _ => "DuplicateBlockId"
  | circular => "Circular"
  | overflow => "Overflow"

def message : GraphError → String
  | blockNotFound id => s!"block not found: {id}"
  | socketNotFound block socket => s!"port not found: block {block}, port {socket}"
  | directionMismatch a b =>
    s!"cannot connect {a.text} to {b.text}: a connection needs one output and one input"
  | incompatible state output input =>
    s!"cannot connect {output.text} to {input.text}: {state.message}"
  | inputAlreadyConnected block socket => s!"input already connected: block {block}, port {socket}"
  | noOutputBlock => "graph has no output block"
  | duplicateBlockId id => s!"duplicate block id: {id}"
  | circular => "graph has a cycle"
  | overflow => "no block number is left"

end GraphError

namespace Node

def ofBlock (name : String) (block : Block) : Node where
  name
  block
  inputs := block.inputSpecs.map fun spec => { spec }
  outputs := block.outputSpecs.map fun spec => { spec }

def sockets (n : Node) : Side → List Socket
  | .input => n.inputs
  | .output => n.outputs

def socket? (n : Node) (side : Side) (index : Nat) : Option Socket := (n.sockets side)[index]?

def modifySocket (n : Node) (side : Side) (index : Nat) (f : Socket → Socket) : Node :=
  match side with
  | .input => { n with inputs := n.inputs.modify index f }
  | .output => { n with outputs := n.outputs.modify index f }

def find? (n : Node) (side : Side) (name : String) : Option Nat :=
  (n.sockets side).findIdx? (·.spec.name == name)

def peers (n : Node) : List SocketId := n.inputs.filterMap (·.peer)

def connectedInput? (n : Node) (name : Option String) : Option Nat :=
  (name.bind (n.find? .input)).filter fun i => (n.inputs[i]?.bind (·.peer)).isSome

def missingInputs (n : Node) : List Socket :=
  n.inputs.filter fun p => !p.spec.isOptional && p.peer.isNone

end Node

namespace Graph

def empty : Graph := {}

def size (g : Graph) : Nat := g.nodes.length

def node? (g : Graph) (id : BlockId) : Option Node := g.nodes.lookup id

def hasBlock (g : Graph) (id : BlockId) : Bool := (g.node? id).isSome

def socket? (g : Graph) (p : SocketId) : Option Socket :=
  (g.node? p.block).bind (·.socket? p.side p.index)

def peer? (g : Graph) (input : SocketId) : Option SocketId := (g.socket? input).bind (·.peer)

def isConnected (g : Graph) (input : SocketId) : Bool := (g.peer? input).isSome

def findByName? (g : Graph) (name : String) : Option BlockId :=
  (g.nodes.find? (·.2.name == name)).map (·.1)

def requireNode (g : Graph) (id : BlockId) : Except GraphError Node :=
  match g.node? id with
  | some node => .ok node
  | none => .error (.blockNotFound id)

def requireSocket (g : Graph) (p : SocketId) : Except GraphError Socket := do
  match (← g.requireNode p.block).socket? p.side p.index with
  | some socket => .ok socket
  | none => .error (.socketNotFound p.block (toString p.index))

def namedSocket (g : Graph) (block : BlockId) (side : Side) (name : String) :
    Except GraphError SocketId := do
  match (← g.requireNode block).find? side name with
  | some index => .ok ⟨block, side, index⟩
  | none => .error (.socketNotFound block name)

def modifyNode (g : Graph) (id : BlockId) (f : Node → Node) : Graph :=
  { g with nodes := g.nodes.map fun (k, n) => if k = id then (k, f n) else (k, n) }

def modifySocket (g : Graph) (p : SocketId) (f : Socket → Socket) : Graph :=
  g.modifyNode p.block (·.modifySocket p.side p.index f)

/-- Puts a block into a list sorted by number, in place of one with its number. -/
def insertNode (id : BlockId) (node : Node) : List (BlockId × Node) → List (BlockId × Node)
  | [] => [(id, node)]
  | (k, n) :: rest =>
    if id < k then (id, node) :: (k, n) :: rest
    else if id = k then (id, node) :: rest
    else (k, n) :: insertNode id node rest

/-- The number after another, if there is one. -/
def numberAfter (id : BlockId) : Except GraphError BlockId :=
  if id = .last then .error .overflow else .ok (id + 1)

/-- Adds a block under the next number, which is part of the result. -/
def add (g : Graph) (name : String) (block : Block) : Except GraphError (BlockId × Graph) := do
  let nextId ← numberAfter g.nextId
  return (g.nextId, { g with nodes := insertNode g.nextId (.ofBlock name block) g.nodes, nextId })

def insert (g : Graph) (id : BlockId) (name : String) (block : Block) :
    Except GraphError Graph := do
  if g.hasBlock id then .error (.duplicateBlockId id)
  else
    let above ← numberAfter id
    return {
      g with
      nodes := insertNode id (.ofBlock name block) g.nodes
      nextId := if g.nextId ≤ above then above else g.nextId }

def setOutput (g : Graph) (id : BlockId) : Except GraphError Graph :=
  if g.hasBlock id then .ok { g with output := some id } else .error (.blockNotFound id)

/-- Replaces what a socket yields while it is not connected. -/
def setDefault (g : Graph) (p : SocketId) (v : Value) : Except GraphError Graph := do
  let _ ← g.requireSocket p
  return g.modifySocket p fun socket => { socket with default? := some v }

/-- Replaces a block's settings; its sockets stay as they are. -/
def setBlock (g : Graph) (id : BlockId) (block : Block) : Graph :=
  g.modifyNode id fun n => { n with block }

end Graph
end MeshFlow
