import MeshFlow.Block.Basic
import MeshFlow.Json.Writer
import MeshFlow.Mesh.Record
import MeshFlow.Value.Literal

set_option autoImplicit false

/-!
# Block settings as JSON

The settings of a block are written as an object with sorted keys. Reading them replaces all of
them: a missing one takes its usual value, and null stands for the empty object. Blocks without
settings take whatever they are given and stay as they are.
-/
namespace MeshFlow

inductive PropertyError where
  | malformed
  | notALiteral (value : Json) (kind : Kind)

def PropertyError.detail? : PropertyError → Option String
  | malformed => none
  | notALiteral value kind => some s!"value {value.compact} is not a {kind.name} literal"

namespace Block
open Json

def flag (name : String) (b : Bool) : Json := .object [(name, .bool b)]

def everyReadSetting (b : Bool) : Json := flag "evaluateContext" b

def vec3ToJson (v : Space.Vec3) : Json := floatsToJson v.toList

def inputProperties (settings : InputBlock) : Json :=
  .object <|
    (settings.source.toList.map fun s => ("contextualValue", .string s.name))
      ++ [("kind", .string settings.kind.name), ("value", settings.value.toJson)]

def properties : Block → Json
  | box b | sphere b | plane b | cylinder b => everyReadSetting b
  | pointList points => .object [("points", .array (points.map vec3ToJson))]
  | mesh data reverseWinding =>
    .object [("reverseWindingOrder", .bool reverseWinding),
      ("vertexData", ((data.map Mesh.toJson).getD .null).normal)]
  | input settings => inputProperties settings
  | math operation => .object [("operation", .string operation.name)]
  | random lock => .object [("lockMode", .string lock.name)]
  | rotation axis => .object [("axis", .string axis.name)]
  | setAttribute _ b | computeNormals b | transform b | merge b | instantiate b
  | instantiateOnFaces b => everyReadSetting b
  | instantiateOnVertices b removeDuplicates =>
    .object [("evaluateContext", .bool b), ("removeDuplicatedPositions", .bool removeDuplicates)]
  | instantiateOnVolume b maxAttempts =>
    .object [("evaluateContext", .bool b), ("maxAttempts", .ofNat maxAttempts.toNat)]
  | output | vectorConverter | shift | scaling | matrixCompose | info | custom _ =>
    .object []

def oneSetting? {α : Type} (name : String) (usual : α) (read : Json → Option α) (j : Json) :
    Option α := do
  match ← j.fields? [name] with
  | [field] => orElse usual read field
  | _ => none

def everyRead? (usual : Bool) : Json → Option Bool := oneSetting? "evaluateContext" usual bool?

def meshSettings? (j : Json) : Option Block := do
  match ← j.fields? ["vertexData", "reverseWindingOrder"] with
  | [data, reverseWinding] =>
    return mesh (← optional Mesh.ofJson? data) (← orElse false bool? reverseWinding)
  | _ => none

def verticesSettings? (j : Json) : Option Block := do
  match ← j.fields? ["evaluateContext", "removeDuplicatedPositions"] with
  | [everyRead, removeDuplicates] =>
    return instantiateOnVertices (← orElse true bool? everyRead)
      (← orElse true bool? removeDuplicates)
  | _ => none

def volumeSettings? (j : Json) : Option Block := do
  match ← j.fields? ["evaluateContext", "maxAttempts"] with
  | [everyRead, maxAttempts] =>
    return instantiateOnVolume (← orElse true bool? everyRead) (← orElse 100 uint32? maxAttempts)
  | _ => none

/-- The settings of an input block: the kind follows the source where it is not given, and the
value has to be a literal of the kind. -/
def inputSettings (j : Json) : Except PropertyError Block := do
  let orMalformed {α : Type} (x : Option α) : Except PropertyError α :=
    match x with
    | some a => .ok a
    | none => .error .malformed
  let source ← orMalformed (optional (name? ContextualSource.table) (j.get? "contextualValue"))
  let usual := (source.map ContextualSource.kind).getD .float
  let kind ← orMalformed (orElse usual (name? Kind.table) (j.get? "kind"))
  match j.get? "value" with
  | none => return input ⟨kind, .null, source⟩
  | some literal =>
    match Value.ofJson? kind literal with
    | some v => return input ⟨kind, v, source⟩
    | none => .error (.notALiteral literal kind)

/-- The block of a record of settings; nothing where they do not fit. -/
def ofSettings? (b : Block) (j : Json) : Option Block :=
  match b with
  | box _ => (everyRead? false j).map box
  | sphere _ => (everyRead? false j).map sphere
  | plane _ => (everyRead? false j).map plane
  | cylinder _ => (everyRead? false j).map cylinder
  | pointList _ => (oneSetting? "points" [] (list? vec3?) j).map pointList
  | mesh .. => meshSettings? j
  | math _ => (oneSetting? "operation" .add (name? Operation.table) j).map math
  | random _ => (oneSetting? "lockMode" .none (name? Lock.table) j).map random
  | rotation _ => (oneSetting? "axis" .x (name? Axis.table) j).map rotation
  | setAttribute target _ => (everyRead? true j).map (setAttribute target)
  | computeNormals _ => (everyRead? true j).map computeNormals
  | transform _ => (everyRead? true j).map transform
  | merge _ => (everyRead? true j).map merge
  | instantiate _ => (everyRead? true j).map instantiate
  | instantiateOnFaces _ => (everyRead? true j).map instantiateOnFaces
  | instantiateOnVertices .. => verticesSettings? j
  | instantiateOnVolume .. => volumeSettings? j
  | other => some other

def withProperties (b : Block) (j : Json) : Except PropertyError Block :=
  match b with
  | input _ => inputSettings j
  | _ =>
    match b.ofSettings? (if j.isNull then .object [] else j) with
    | some b => .ok b
    | none => .error .malformed

end Block
end MeshFlow
