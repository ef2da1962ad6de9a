import MeshFlow.Block.Sockets
import MeshFlow.Build.Program

set_option autoImplicit false

/-!
# Blocks that write an attribute vertex by vertex

The source is read once for every vertex, with the step at that vertex and the geometry as it came
in; the copy that is being written is never what the source sees.
-/
namespace MeshFlow
open Program

/-- The components that a value gives an attribute; a color without alpha is opaque. -/
def Attribute.components? (target : Attribute) (v : Value) : Option (List Float32) :=
  match target, v with
  | .color, .vector3 rgb => some (rgb.extend 1).toList
  | _, _ => (v.coerce? target.kind).bind Value.components?

namespace Block

/-- Puts the components for one vertex, read under its contexts, before `entries`; what cannot be
written is reported and gives none. -/
def vertexEntry (id : BlockId) (target : Attribute) (outer : Contexts)
    (entries : List (Option (List Float32))) (vertex : Nat) :
    Program (List (Option (List Float32))) := do
  setContexts { outer with execution := some (Execution.atStep id vertex) }
  let v ← value 1
  match target.components? v with
  | some xs => return some xs :: entries
  | none =>
    if !v.isNull then report (.typeMismatch id target.inputName target.kind v.kind?)
    return none :: entries

def setAttributeProgram (id : BlockId) (target : Attribute) : Program Value := inScope do
  match ← mesh? 0 with
  | none => return .null
  | some incoming =>
    if !incoming.hasPositions then return .null
    else if !(← connected 1) then return .geometry incoming
    else
      let outer := { ← currentContexts with geometry := some (.of incoming) }
      let entries ← forEach (vertexEntry id target outer) (List.range incoming.vertexCount) []
      return .geometry (incoming.overwrite target entries.reverse)

end Block
end MeshFlow
