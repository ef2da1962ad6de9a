set_option autoImplicit false

/-!
# Naming blocks and sockets

A block has a number of its own in its graph. A socket is named by its block, its side, and its
place among the block's sockets of that side.
-/
namespace MeshFlow

abbrev BlockId := UInt32

/-- The number that has none after it. -/
def BlockId.last : BlockId := 4294967295

/-- Inputs receive from at most one output; outputs feed any number of inputs. -/
inductive Side where
  | input
  | output
  deriving DecidableEq

structure SocketId where
  block : BlockId
  side : Side
  index : Nat
  deriving DecidableEq

namespace SocketId

def input (block : BlockId) (index : Nat) : SocketId := ⟨block, .input, index⟩

def output (block : BlockId) (index : Nat) : SocketId := ⟨block, .output, index⟩

def text (p : SocketId) : String :=
  let side := match p.side with
    | .input => "in"
    | .output => "out"
  s!"{p.block}.{side}[{p.index}]"

end SocketId
end MeshFlow
