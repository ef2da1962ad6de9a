import MeshFlow.Block.Basic

set_option autoImplicit false

/-!
# The sockets of blocks

Every class declares its inputs and outputs in order; an input's place in that order is how the
block's program names it.
-/
namespace MeshFlow
open SocketSpec

/-- Kinds that arithmetic never lets in. -/
def nonArithmetic : List Kind := [.geometry, .matrix, .texture]

/-- An operand of arithmetic, which takes over the kind of the other one. -/
def operand (name other : String) : SocketSpec :=
  ((input name .autoDetect).linked other).excluding nonArithmetic

def resultOf (operand : String) : SocketSpec :=
  ((output "output" .basedOnInput).derivedFrom operand).orKind .float

def floatInput (name : String) (usual : Float32) : SocketSpec :=
  (input name .float).withDefault (.float usual)

def intInput (name : String) (usual : Int32) : SocketSpec :=
  (input name .int).withDefault (.int usual)

def vectorInput (name : String) (usual : Space.Vec3) : SocketSpec :=
  (input name .vector3).withDefault (.vector3 usual)

def openInput (name : String) (kind : Kind) : SocketSpec := (input name kind).optional

def geometryInput (name : String) : SocketSpec := input name .geometry

def placementInputs (position : String) : List SocketSpec :=
  [openInput "matrix" .matrix, vectorInput position .zero, vectorInput "rotation" .zero,
    vectorInput "scaling" .one]

def scatterInputs (amount : SocketSpec) : List SocketSpec :=
  [geometryInput "geometry", geometryInput "instance", amount] ++ placementInputs "offset"

namespace Attribute

def inputName : Attribute → String
  | position => "positions"
  | normal => "normals"
  | uv => "uvs"
  | color => "colors"
  | tangent => "tangents"

def kind : Attribute → Kind
  | position | normal => .vector3
  | uv => .vector2
  | color | tangent => .vector4

/-- Kinds a setter takes besides: a color may come without its alpha. -/
def alsoAccepted : Attribute → List Kind
  | color => [.vector3]
  | _ => []

end Attribute

namespace Block

def sockets : Block → List SocketSpec
  | box _ =>
    [floatInput "size" 1, floatInput "width" 0, floatInput "height" 0, floatInput "depth" 0,
      SocketSpec.output "geometry" .geometry]
  | sphere _ =>
    [intInput "segments" 32, floatInput "diameter" 1, SocketSpec.output "geometry" .geometry]
  | plane _ =>
    [floatInput "size" 1, floatInput "width" 0, floatInput "height" 0, intInput "subdivisions" 1,
      SocketSpec.output "geometry" .geometry]
  | cylinder _ =>
    [floatInput "height" 2, floatInput "diameter" 1, intInput "tessellation" 24,
      SocketSpec.output "geometry" .geometry]
  | pointList _ => [SocketSpec.output "geometry" .geometry]
  | mesh .. => [SocketSpec.output "geometry" .geometry]
  | input _ => [SocketSpec.output "output" .autoDetect]
  | output => [geometryInput "geometry"]
  | math _ => [operand "left" "right", operand "right" "left", resultOf "left"]
  | random _ =>
    [(operand "min" "max").withDefault (.float 0), (operand "max" "min").withDefault (.float 1),
      resultOf "min"]
  | vectorConverter =>
    [openInput "xyzwIn" .vector4, openInput "xyzIn" .vector3, openInput "xyIn" .vector2,
      openInput "xIn" .float, openInput "yIn" .float, openInput "zIn" .float,
      openInput "wIn" .float, SocketSpec.output "xyzw" .vector4, SocketSpec.output "xyz" .vector3,
      SocketSpec.output "xy" .vector2, SocketSpec.output "x" .float, SocketSpec.output "y" .float,
      SocketSpec.output "z" .float, SocketSpec.output "w" .float]
  | shift => [vectorInput "translation" .zero, SocketSpec.output "matrix" .matrix]
  | scaling => [vectorInput "scale" .one, SocketSpec.output "matrix" .matrix]
  | rotation _ => [floatInput "angle" 0, SocketSpec.output "matrix" .matrix]
  | matrixCompose =>
    [SocketSpec.input "matrix0" .matrix, SocketSpec.input "matrix1" .matrix,
      SocketSpec.output "output" .matrix]
  | setAttribute target _ =>
    [geometryInput "geometry",
      (openInput target.inputName target.kind).accepting target.alsoAccepted,
      SocketSpec.output "output" .geometry]
  | computeNormals _ => [geometryInput "geometry", SocketSpec.output "output" .geometry]
  | transform _ =>
    [geometryInput "geometry", openInput "matrix" .matrix,
      vectorInput "translation" .zero, vectorInput "rotation" .zero, vectorInput "scaling" .one,
      vectorInput "pivot" .zero, SocketSpec.output "output" .geometry]
  | merge _ =>
    [geometryInput "geometry0", (geometryInput "geometry1").optional,
      (geometryInput "geometry2").optional, (geometryInput "geometry3").optional,
      (geometryInput "geometry4").optional, SocketSpec.output "output" .geometry]
  | info =>
    [geometryInput "geometry", SocketSpec.output "output" .geometry, SocketSpec.output "id" .int,
      SocketSpec.output "vertexCount" .int, SocketSpec.output "faceCount" .int]
  | instantiate _ =>
    [geometryInput "instance", intInput "count" 1] ++ placementInputs "position"
      ++ [SocketSpec.output "output" .geometry]
  | instantiateOnFaces _ =>
    scatterInputs (intInput "count" 256) ++ [SocketSpec.output "output" .geometry]
  | instantiateOnVertices .. =>
    scatterInputs (floatInput "density" 1) ++ [SocketSpec.output "output" .geometry]
  | instantiateOnVolume .. =>
    scatterInputs (intInput "count" 256) ++ [SocketSpec.output "output" .geometry]
  | custom block => block.sockets

def inputSpecs (b : Block) : List SocketSpec := b.sockets.filter (·.side = .input)

def outputSpecs (b : Block) : List SocketSpec := b.sockets.filter (·.side = .output)

end Block
end MeshFlow
