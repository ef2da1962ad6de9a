import MeshFlow.Socket.Id
import MeshFlow.Value.Basic

set_option autoImplicit false

/-!
# Socket declarations

What a block says about one of its sockets, before the socket is part of a graph.
-/
namespace MeshFlow

structure SocketSpec where
  name : String
  side : Side
  kind : Kind
  /-- The block can be built while the socket is not connected. -/
  isOptional : Bool := false
  /-- What the socket yields while it is not connected. -/
  default? : Option Value := none
  /-- Kinds let in although they differ from the socket's own. -/
  accepted : List Kind := []
  /-- Kinds never let in. -/
  excluded : List Kind := []
  /-- The input whose kind a detecting socket takes over. -/
  linkedWith : Option String := none
  /-- The input that a derived kind comes from. -/
  kindFrom : Option String := none
  /-- The derived kind while that input is not connected. -/
  fallback : Option Kind := none

namespace SocketSpec

/-- An input that has to be connected. -/
def input (name : String) (kind : Kind) : SocketSpec := { name, side := .input, kind }

def output (name : String) (kind : Kind) : SocketSpec := { name, side := .output, kind }

def optional (p : SocketSpec) : SocketSpec := { p with isOptional := true }

/-- A socket with a value for itself need not be connected. -/
def withDefault (p : SocketSpec) (v : Value) : SocketSpec :=
  { p with default? := some v, isOptional := true }

def accepting (p : SocketSpec) (kinds : List Kind) : SocketSpec :=
  { p with accepted := p.accepted ++ kinds }

def excluding (p : SocketSpec) (kinds : List Kind) : SocketSpec :=
  { p with excluded := p.excluded ++ kinds }

def linked (p : SocketSpec) (sibling : String) : SocketSpec := { p with linkedWith := some sibling }

def derivedFrom (p : SocketSpec) (source : String) : SocketSpec :=
  { p with kindFrom := some source }

def orKind (p : SocketSpec) (kind : Kind) : SocketSpec := { p with fallback := some kind }

end SocketSpec
end MeshFlow
