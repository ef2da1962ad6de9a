import MeshFlow.Block.Properties
import MeshFlow.Document.Basic
import MeshFlow.Graph.Basic

set_option autoImplicit false

/-!
# Saving graphs

Every block is saved with its number, name, class and settings, its inputs with their literals.
Geometry is no literal: an input that holds it is saved without one.
-/
namespace MeshFlow

def Socket.save (p : Socket) : SavedInput where
  name := p.spec.name
  value := (p.default?.map Value.toJson).filter fun j => !j.isNull

def Node.save (id : BlockId) (n : Node) : SavedBlock where
  className := n.block.className
  id
  name := n.name
  inputs := n.inputs.map Socket.save
  outputs := n.outputs.map fun p => ⟨p.spec.name⟩
  properties := match n.block.properties with
    | .object members => members
    | _ => []

namespace Graph

def saveConnection? (g : Graph) (c : Connection) : Option SavedConnection := do
  let output ← g.socket? c.output
  let input ← g.socket? c.input
  return ⟨c.output.block, output.spec.name, c.input.block, input.spec.name⟩

def save (g : Graph) : SavedGraph where
  output := g.output
  blocks := g.nodes.map fun (id, n) => n.save id
  connections := g.connections.filterMap g.saveConnection?

def saveText (g : Graph) (indent : Bool) : String :=
  if indent then g.save.toJson.indented else g.save.toJson.compact

end Graph
end MeshFlow
