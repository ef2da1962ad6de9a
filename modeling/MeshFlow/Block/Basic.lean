import MeshFlow.Socket.Spec
import MeshFlow.Build.Context

set_option autoImplicit false

/-!
# Blocks

The standard blocks, each with the settings that can be edited, and blocks of a caller's own. Where
a block has the setting `everyRead`, it says whether its output is worked out anew at every read or
once when the block is built.
-/
namespace MeshFlow

/-- An operation on two numbers, taken component by component. -/
inductive Operation where
  | add
  | subtract
  | multiply
  | divide
  | max
  | min
  deriving DecidableEq

namespace Operation

def table : List (String × Operation) :=
  [("Add", add), ("Subtract", subtract), ("Multiply", multiply), ("Divide", divide), ("Max", max),
    ("Min", min)]

def name : Operation → String
  | add => "Add"
  | subtract => "Subtract"
  | multiply => "Multiply"
  | divide => "Divide"
  | max => "Max"
  | min => "Min"

def apply : Operation → Float32 → Float32 → Float32
  | add, a, b => a + b
  | subtract, a, b => a - b
  | multiply, a, b => a * b
  | divide, a, b => a / b
  | max, a, b => Number.larger a b
  | min, a, b => Number.smaller a b

end Operation

inductive Lock where
  | none
  | loopId
  | instanceId
  | once
  deriving DecidableEq

namespace Lock

def table : List (String × Lock) :=
  [("None", none), ("LoopId", loopId), ("InstanceId", instanceId), ("Once", once)]

def name : Lock → String
  | none => "None"
  | loopId => "LoopId"
  | instanceId => "InstanceId"
  | once => "Once"

end Lock

inductive Axis where
  | x
  | y
  | z
  deriving DecidableEq

namespace Axis

def table : List (String × Axis) := [("X", x), ("Y", y), ("Z", z)]

def name : Axis → String
  | x => "X"
  | y => "Y"
  | z => "Z"

end Axis

/-- Feeds a literal into a graph, or a contextual value where a source is set. -/
structure InputBlock where
  kind : Kind := .float
  value : Value := .float 0
  source : Option ContextualSource := none

namespace InputBlock

def ofValue (v : Value) : InputBlock := ⟨v.kind?.getD .float, v, none⟩

def ofSource (s : ContextualSource) : InputBlock := ⟨s.kind, .null, some s⟩

/-- Another literal, adapted to the kind; null where it cannot be. -/
def withValue (b : InputBlock) (v : Value) : InputBlock :=
  { b with value := (v.coerce? b.kind).getD .null }

end InputBlock

inductive Script where
  /-- Reads the first input once and hands its value to every output. -/
  | relay
  /-- Every output reads the first input at every read, or once. -/
  | passOn (everyRead : Bool)
  /-- The first input is the result of the pass. -/
  | result
  /-- The output named `output`, or else the first, yields how many bytes the block's name has. -/
  | nameLength
  /-- Changes the contexts on its way and yields ones. -/
  | leaky
  /-- Hands the input named `value` to the output named `output`. -/
  | byName
  | idle
  deriving DecidableEq

/-- A block of a caller's own: its sockets, the kind of its literal if it is one, and a script. -/
structure CustomBlock where
  sockets : List SocketSpec
  literalKind : Option Kind := none
  script : Script := .relay

inductive Block where
  | box (everyRead : Bool)
  | sphere (everyRead : Bool)
  | plane (everyRead : Bool)
  | cylinder (everyRead : Bool)
  | pointList (points : List Space.Vec3)
  | mesh (data : Option Mesh) (reverseWinding : Bool)
  | input (settings : InputBlock)
  | output
  | math (operation : Operation)
  | random (lock : Lock)
  | vectorConverter
  | shift
  | scaling
  | rotation (axis : Axis)
  | matrixCompose
  /-- Writes one attribute of every vertex. -/
  | setAttribute (target : Attribute) (everyRead : Bool)
  | computeNormals (everyRead : Bool)
  | transform (everyRead : Bool)
  | merge (everyRead : Bool)
  | info
  | instantiate (everyRead : Bool)
  | instantiateOnFaces (everyRead : Bool)
  | instantiateOnVertices (everyRead : Bool) (removeDuplicates : Bool)
  | instantiateOnVolume (everyRead : Bool) (maxAttempts : UInt32)
  | custom (block : CustomBlock)

namespace Block

def className : Block → String
  | box _ => "BoxBlock"
  | sphere _ => "SphereBlock"
  | plane _ => "PlaneBlock"
  | cylinder _ => "CylinderBlock"
  | pointList _ => "PointListBlock"
  | mesh .. => "MeshBlock"
  | input _ => "GeometryInputBlock"
  | output => "GeometryOutputBlock"
  | math _ => "MathBlock"
  | random _ => "RandomBlock"
  | vectorConverter => "VectorConverterBlock"
  | shift => "TranslationBlock"
  | scaling => "ScalingBlock"
  | rotation _ => "RotationBlock"
  | matrixCompose => "MatrixComposeBlock"
  | setAttribute .position _ => "SetPositionsBlock"
  | setAttribute .normal _ => "SetNormalsBlock"
  | setAttribute .uv _ => "SetUvsBlock"
  | setAttribute .color _ => "SetColorsBlock"
  | setAttribute .tangent _ => "SetTangentsBlock"
  | computeNormals _ => "ComputeNormalsBlock"
  | transform _ => "GeometryTransformBlock"
  | merge _ => "MergeGeometryBlock"
  | info => "GeometryInfoBlock"
  | instantiate _ => "InstantiateBlock"
  | instantiateOnFaces _ => "InstantiateOnFacesBlock"
  | instantiateOnVertices .. => "InstantiateOnVerticesBlock"
  | instantiateOnVolume .. => "InstantiateOnVolumeBlock"
  | custom _ => "Custom"

/-- The kind that detecting sockets of a literal's block have. -/
def literalKind? : Block → Option Kind
  | input settings => some settings.kind
  | custom block => block.literalKind
  | _ => none

def IsStandard : Block → Prop
  | custom _ => False
  | _ => True

def standard : List Block :=
  [box false, sphere false, plane false, cylinder false, pointList [], mesh none false,
    input {}, output, math .add, random .none, vectorConverter, shift, scaling, rotation .x,
    matrixCompose, setAttribute .position true, setAttribute .normal true,
    setAttribute .color true, setAttribute .tangent true, setAttribute .uv true,
    computeNormals true, transform true, merge true, info, instantiate true,
    instantiateOnFaces true, instantiateOnVertices true true, instantiateOnVolume true 100]

/-- The same block with its output worked out at every read, or once. -/
def withEveryRead (everyRead : Bool) : Block → Block
  | box _ => box everyRead
  | sphere _ => sphere everyRead
  | plane _ => plane everyRead
  | cylinder _ => cylinder everyRead
  | setAttribute target _ => setAttribute target everyRead
  | computeNormals _ => computeNormals everyRead
  | transform _ => transform everyRead
  | merge _ => merge everyRead
  | instantiate _ => instantiate everyRead
  | instantiateOnFaces _ => instantiateOnFaces everyRead
  | instantiateOnVertices _ removeDuplicates => instantiateOnVertices everyRead removeDuplicates
  | instantiateOnVolume _ maxAttempts => instantiateOnVolume everyRead maxAttempts
  | other => other

end Block
end MeshFlow
