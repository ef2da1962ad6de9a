import MeshFlow.Graph.Basic

set_option autoImplicit false

/-!
# The kinds of sockets

A socket that declares a kind of its own has it. A detecting socket has the kind of its block's
literal, or of what it is connected to, or of the input it is linked with. A derived kind comes
from another input of the block while that is connected, and else from the fallback.
-/
namespace MeshFlow.Graph

/-- Where the kind of a socket comes from: it is known, or it is the kind of another socket. -/
def kindSource (g : Graph) (p : SocketId) : Kind ⊕ SocketId :=
  match g.node? p.block with
  | none => .inl .autoDetect
  | some node =>
    match node.socket? p.side p.index with
    | none => .inl .autoDetect
    | some socket =>
      match socket.spec.kind with
      | .autoDetect =>
        match node.block.literalKind? with
        | some kind => .inl kind
        | none =>
          match socket.peer with
          | some peer => .inr peer
          | none =>
            match node.connectedInput? socket.spec.linkedWith with
            | some sibling => .inr (.input p.block sibling)
            | none => .inl .autoDetect
      | .basedOnInput =>
        match node.connectedInput? socket.spec.kindFrom with
        | some source => .inr (.input p.block source)
        | none => .inl (socket.spec.fallback.getD .basedOnInput)
      | kind => .inl kind

/-- The kind of a socket, where it is known after fewer than `steps` steps to other sockets. -/
def kindWithin (g : Graph) : Nat → SocketId → Option Kind
  | 0, _ => none
  | steps + 1, p =>
    match g.kindSource p with
    | .inl kind => some kind
    | .inr source => g.kindWithin steps source

def socketCount (g : Graph) : Nat := (g.nodes.flatMap fun (_, n) => n.inputs ++ n.outputs).length

/-- The kind of a socket. Steps that do not go in a circle come to no socket twice. -/
def resolvedKind (g : Graph) (p : SocketId) : Kind :=
  (g.kindWithin (g.socketCount + 1) p).getD .autoDetect

end MeshFlow.Graph
