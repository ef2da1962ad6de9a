import MeshFlow.Json.Decode
import MeshFlow.Json.Reader
import MeshFlow.Mesh.Shape.Cuboid
import MeshFlow.Mesh.Shape.Cylinder
import MeshFlow.Mesh.Shape.Plane
import MeshFlow.Mesh.Shape.Sphere

set_option autoImplicit false

/-!
# Meshes and shapes as JSON

A mesh is written as an object that leaves out what the mesh lacks, and read with every field
optional. Shapes are read alone, each field with its usual size.
-/
namespace MeshFlow
open Json

def floatsToJson (xs : List Float32) : Json := .array (xs.map Json.ofFloat32)

namespace Mesh

def optionalMember (key : String) (value : Option Json) : List (String × Json) :=
  value.toList.map (key, ·)

def toJson (m : Mesh) : Json :=
  .object <|
    [("positions", floatsToJson m.positions)]
      ++ optionalMember "normals" (m.normals.map floatsToJson)
      ++ optionalMember "uvs" (m.uvs.map floatsToJson)
      ++ optionalMember "colors" (m.colors.map floatsToJson)
      ++ optionalMember "tangents" (m.tangents.map floatsToJson)
      ++ optionalMember "indices" (m.indices.map fun is => .array (is.map fun i => .ofNat i.toNat))
      ++ [("id", .ofNat m.id.toNat)]

def fieldNames : List String :=
  ["positions", "normals", "uvs", "colors", "tangents", "indices", "id"]

def ofJson? (j : Json) : Option Mesh := do
  match ← j.fields? fieldNames with
  | [positions, normals, uvs, colors, tangents, indices, id] =>
    return {
      positions := ← orElse [] (list? float32?) positions
      normals := ← optional (list? float32?) normals
      uvs := ← optional (list? float32?) uvs
      colors := ← optional (list? float32?) colors
      tangents := ← optional (list? float32?) tangents
      indices := ← optional (list? uint32?) indices
      id := ← orElse 0 uint32? id }
  | _ => none

def ofText? (text : String) : Option Mesh := decode? (.fields fieldNames) ofJson? text

end Mesh

namespace Cuboid

def fieldNames : List String := ["width", "height", "depth"]

def ofJson? (j : Json) : Option Cuboid := do
  let usual : Cuboid := {}
  match ← j.fields? fieldNames with
  | [width, height, depth] =>
    return ⟨← orElse usual.width float32? width, ← orElse usual.height float32? height,
      ← orElse usual.depth float32? depth⟩
  | _ => none

def ofText? (text : String) : Option Cuboid := decode? (.fields fieldNames) ofJson? text

end Cuboid

namespace Sphere

def fieldNames : List String := ["radius", "segments", "rings"]

def ofJson? (j : Json) : Option Sphere := do
  let usual : Sphere := {}
  match ← j.fields? fieldNames with
  | [radius, segments, rings] =>
    return ⟨← orElse usual.radius float32? radius, ← orElse usual.segments uint32? segments,
      ← orElse usual.rings uint32? rings⟩
  | _ => none

def ofText? (text : String) : Option Sphere := decode? (.fields fieldNames) ofJson? text

end Sphere

namespace Plane

def fieldNames : List String := ["width", "depth", "subdivisions_x", "subdivisions_z"]

def ofJson? (j : Json) : Option Plane := do
  let usual : Plane := {}
  match ← j.fields? fieldNames with
  | [width, depth, subdivisionsX, subdivisionsZ] =>
    return ⟨← orElse usual.width float32? width, ← orElse usual.depth float32? depth,
      ← orElse usual.subdivisionsX uint32? subdivisionsX,
      ← orElse usual.subdivisionsZ uint32? subdivisionsZ⟩
  | _ => none

def ofText? (text : String) : Option Plane := decode? (.fields fieldNames) ofJson? text

end Plane

namespace Cylinder

def fieldNames : List String := ["radius", "height", "segments"]

def ofJson? (j : Json) : Option Cylinder := do
  let usual : Cylinder := {}
  match ← j.fields? fieldNames with
  | [radius, height, segments] =>
    return ⟨← orElse usual.radius float32? radius, ← orElse usual.height float32? height,
      ← orElse usual.segments uint32? segments⟩
  | _ => none

def ofText? (text : String) : Option Cylinder := decode? (.fields fieldNames) ofJson? text

end Cylinder

end MeshFlow
