import MeshFlow.Graph.Ancestry
import MeshFlow.Graph.Kinds

set_option autoImplicit false

/-!
# Connecting and disconnecting

A connection needs an output and an input that is free, kinds that go together, and must not close
a cycle. Both ends and the list of connections change together.
-/
namespace MeshFlow.Graph

def orient (g : Graph) (a b : SocketId) : Except GraphError (SocketId × SocketId) := do
  let _ ← g.requireSocket a
  let _ ← g.requireSocket b
  match a.side, b.side with
  | .output, .input => .ok (a, b)
  | .input, .output => .ok (b, a)
  | _, _ => .error (.directionMismatch a b)

def hierarchy (g : Graph) (output input : SocketId) : Compatibility :=
  if input.block = output.block ∨ g.isAncestorOf input.block output.block then .hierarchyIssue
  else .compatible

/-- A kind goes into a socket of the same kind, into one that detects its kind, and into one that
accepts it besides; excluded kinds never do. -/
def letsIn (target : Socket) (targetKind sourceKind : Kind) : Bool :=
  (sourceKind == targetKind || target.spec.kind == .autoDetect
      || target.spec.accepted.contains sourceKind)
    && !target.spec.excluded.contains sourceKind

/-- Kinds first, then cycles. -/
def compatibility (g : Graph) (output input : SocketId) : Compatibility :=
  match g.socket? input with
  | none => .typeIncompatible
  | some target =>
    if letsIn target (g.resolvedKind input) (g.resolvedKind output) then g.hierarchy output input
    else .typeIncompatible

def canConnect (g : Graph) (a b : SocketId) : Compatibility :=
  match g.orient a b with
  | .ok (output, input) => g.compatibility output input
  | .error _ => .typeIncompatible

/-- Puts a connection into all three places. -/
def link (g : Graph) (output input : SocketId) : Graph :=
  let g := g.modifySocket input fun p => { p with peer := some output }
  let g := g.modifySocket output fun p => { p with endpoints := p.endpoints ++ [input] }
  { g with connections := g.connections ++ [⟨output, input⟩] }

/-- Takes a connection out of all three places. -/
def unlink (g : Graph) (output input : SocketId) : Graph :=
  let g := { g with connections := g.connections.erase ⟨output, input⟩ }
  let g := g.modifySocket input fun p => { p with peer := none }
  g.modifySocket output fun p => { p with endpoints := p.endpoints.filter (· ≠ input) }

def connectIf (check : SocketId → SocketId → Compatibility) (g : Graph) (a b : SocketId) :
    Except GraphError Graph := do
  let (output, input) ← g.orient a b
  let target ← g.requireSocket input
  if target.peer.isSome then .error (.inputAlreadyConnected input.block target.spec.name)
  else
    match check output input with
    | .compatible => .ok (g.link output input)
    | state => .error (.incompatible state output input)

def connect (g : Graph) (a b : SocketId) : Except GraphError Graph :=
  g.connectIf g.compatibility a b

/-- Connects whatever the kinds; cycles are refused all the same. -/
def connectUnchecked (g : Graph) (a b : SocketId) : Except GraphError Graph :=
  g.connectIf g.hierarchy a b

/-- Takes a connection away; nothing where the sockets are not connected to one another. -/
def disconnect? (g : Graph) (a b : SocketId) : Option Graph :=
  match g.orient a b with
  | .ok (output, input) =>
    if g.connections.contains ⟨output, input⟩ then some (g.unlink output input) else none
  | .error _ => none

/-- Takes connections away one by one; counts those that were there. -/
def disconnectEach (g : Graph) (connections : List Connection) : Nat × Graph :=
  connections.foldl
    (fun (count, g) c =>
      match g.disconnect? c.output c.input with
      | some g => (count + 1, g)
      | none => (count, g))
    (0, g)

def disconnectAll (g : Graph) (p : SocketId) : Nat × Graph :=
  g.disconnectEach (g.connections.filter fun c => c.output = p ∨ c.input = p)

/-- Takes a block away with all its connections; the block is the result. -/
def remove (g : Graph) (id : BlockId) : Option Block × Graph :=
  let (_, g') := g.disconnectEach
    (g.connections.filter fun c => c.output.block = id ∨ c.input.block = id)
  ((g.node? id).map (·.block),
    { g' with
      nodes := g'.nodes.filter (·.1 ≠ id)
      output := if g'.output = some id then none else g'.output })

/-! ## Notices -/

structure Notice where
  connected : Bool
  own : SocketId
  peer : SocketId

def noticesOf (connected : Bool) (c : Connection) : List Notice :=
  [⟨connected, c.output, c.input⟩, ⟨connected, c.input, c.output⟩]

def listens (g : Graph) (id : BlockId) : Bool :=
  match g.node? id with
  | some { block := .custom _, .. } => true
  | _ => false

/-- What the blocks that listen are told when `g` turns into `after`: connections taken away, then
connections made. -/
def notices (g after : Graph) : List Notice :=
  let gone := g.connections.filter fun c => !after.connections.contains c
  let made := after.connections.filter fun c => !g.connections.contains c
  (gone.flatMap (noticesOf false)).filter (fun n => g.listens n.own.block)
    ++ (made.flatMap (noticesOf true)).filter (fun n => after.listens n.own.block)

end MeshFlow.Graph
