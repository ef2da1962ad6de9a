import MeshFlow.Block.Sockets
import MeshFlow.Build.Program
import MeshFlow.Mesh.Motion
import MeshFlow.Space.Placement

set_option autoImplicit false

/-!
# Blocks that make and apply matrices
-/
namespace MeshFlow.Block
open Program Space

def shiftProgram : Program Value := do
  return .matrix (Matrix.ofShift (← vec3 0 .zero))

def scalingProgram : Program Value := do
  return .matrix (Matrix.ofScale (← vec3 0 .one))

def rotationProgram (axis : Axis) : Program Value := do
  let angle ← float 0 0
  return .matrix <| match axis with
    | .x => Matrix.ofRotationX angle
    | .y => Matrix.ofRotationY angle
    | .z => Matrix.ofRotationZ angle

def composeProgram : Program Value := do
  let first ← matrix? 0
  let second ← matrix? 1
  match first, second with
  | some first, some second => return .matrix (second * first)
  | _, _ => return .null

/-- The connected matrix, or else the placement that the other inputs describe. -/
def transformMatrix : Program Matrix := do
  if ← connected 1 then
    return (← matrix? 1).getD Matrix.identity
  else
    let shift ← vec3 2 .zero
    let rotation ← vec3 3 .zero
    let scaling ← vec3 4 .one
    let pivot ← vec3 5 .zero
    return Matrix.ofPivot shift rotation scaling pivot

def transformProgram : Program Value := do
  match ← mesh? 0 with
  | none => return .null
  | some m => return .geometry (m.transform (← transformMatrix))

end MeshFlow.Block
