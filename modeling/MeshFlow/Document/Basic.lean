import MeshFlow.Json.Decode
import MeshFlow.Json.Reader
import MeshFlow.Socket.Id

set_option autoImplicit false

/-!
# Saved graphs

A saved graph lists blocks with their settings, the literals of their inputs and the names of their
sockets, and connections by the names of the sockets. It is written as one JSON tree: the settings
of a block stand beside the fields that every block has, and reading tells them apart by their keys.
Everywhere else unknown members are passed over.
-/
namespace MeshFlow
open Json

structure SavedInput where
  name : String
  /-- The literal that the input yields while it is not connected. -/
  value : Option Json := none

structure SavedOutput where
  name : String

structure SavedBlock where
  className : String
  id : BlockId
  name : String := ""
  inputs : List SavedInput := []
  outputs : List SavedOutput := []
  properties : List (String × Json) := []

structure SavedConnection where
  outputBlock : BlockId
  outputSocket : String
  inputBlock : BlockId
  inputSocket : String

structure SavedGraph where
  output : Option BlockId := none
  blocks : List SavedBlock := []
  connections : List SavedConnection := []

def idToJson (id : BlockId) : Json := .ofNat id.toNat

namespace SavedInput

def toJson (i : SavedInput) : Json :=
  .object (("name", .string i.name) :: i.value.toList.map ("value", ·))

def fieldNames : List String := ["name", "value"]

def ofJson? (j : Json) : Option SavedInput := do
  match ← j.fields? fieldNames with
  | [name, value] => return ⟨← required string? name, ← optional (fun j => some j.normal) value⟩
  | _ => none

end SavedInput

namespace SavedOutput

def toJson (o : SavedOutput) : Json := .object [("name", .string o.name)]

def fieldNames : List String := ["name"]

def ofJson? (j : Json) : Option SavedOutput := do
  match ← j.fields? fieldNames with
  | [name] => return ⟨← required string? name⟩
  | _ => none

end SavedOutput

namespace SavedConnection

def toJson (c : SavedConnection) : Json :=
  .object [("outputBlockId", idToJson c.outputBlock), ("outputPortName", .string c.outputSocket),
    ("inputBlockId", idToJson c.inputBlock), ("inputPortName", .string c.inputSocket)]

def fieldNames : List String :=
  ["outputBlockId", "outputPortName", "inputBlockId", "inputPortName"]

def ofJson? (j : Json) : Option SavedConnection := do
  match ← j.fields? fieldNames with
  | [outputBlock, outputSocket, inputBlock, inputSocket] =>
    return ⟨← required uint32? outputBlock, ← required string? outputSocket,
      ← required uint32? inputBlock, ← required string? inputSocket⟩
  | _ => none

end SavedConnection

namespace SavedBlock

/-- The keys that every block has; all others are settings. -/
def fieldNames : List String := ["className", "id", "name", "inputs", "outputs"]

def shape : Shape :=
  .record
    [("className", .any), ("id", .any), ("name", .any),
      ("inputs", .list (.fields SavedInput.fieldNames)),
      ("outputs", .list (.fields SavedOutput.fieldNames))]
    true

def toJson (b : SavedBlock) : Json :=
  .object <|
    [("className", .string b.className), ("id", idToJson b.id), ("name", .string b.name),
      ("inputs", .array (b.inputs.map SavedInput.toJson)),
      ("outputs", .array (b.outputs.map SavedOutput.toJson))] ++ b.properties

/-- The members of a block object that are settings, in normal form. -/
def settingsOf (members : List (String × Json)) : List (String × Json) :=
  sortMembers (normalMembers (members.filter fun m => !fieldNames.contains m.1))

def ofJson? : Json → Option SavedBlock
  | .object members => do
    match ← (Json.object members).fields? fieldNames with
    | [className, id, name, inputs, outputs] =>
      return {
        className := ← required string? className
        id := ← required uint32? id
        name := ← orElse "" string? name
        inputs := ← orElse [] (list? SavedInput.ofJson?) inputs
        outputs := ← orElse [] (list? SavedOutput.ofJson?) outputs
        properties := settingsOf members }
    | _ => none
  | _ => none

end SavedBlock

namespace SavedGraph

def toJson (g : SavedGraph) : Json :=
  .object <|
    g.output.toList.map (fun id => ("outputNodeId", idToJson id))
      ++ [("blocks", .array (g.blocks.map SavedBlock.toJson)),
        ("connections", .array (g.connections.map SavedConnection.toJson))]

def fieldNames : List String := ["outputNodeId", "blocks", "connections"]

def shape : Shape :=
  .record
    [("outputNodeId", .any), ("blocks", .list SavedBlock.shape),
      ("connections", .list (.fields SavedConnection.fieldNames))]
    false

def ofJson? (j : Json) : Option SavedGraph := do
  match ← j.fields? fieldNames with
  | [output, blocks, connections] =>
    return ⟨← optional uint32? output, ← orElse [] (list? SavedBlock.ofJson?) blocks,
      ← orElse [] (list? SavedConnection.ofJson?) connections⟩
  | _ => none

def ofText? (text : String) : Option SavedGraph := decode? shape ofJson? text

end SavedGraph
end MeshFlow
