import MeshFlow.Block.Gathering
import MeshFlow.Block.Motions
import MeshFlow.Block.Numbers
import MeshFlow.Block.PerVertex
import MeshFlow.Block.Scatter
import MeshFlow.Block.Shapes

set_option autoImplicit false

/-!
# What blocks do when they are built

The plan of every block: which outputs yield a value fixed at once, and which run a program at
every read.
-/
namespace MeshFlow
open Program

namespace CustomBlock

def find? (block : CustomBlock) (side : Side) (name : String) : Option Nat :=
  (block.sockets.filter (·.side = side)).findIdx? (·.name == name)

def outputCount (block : CustomBlock) : Nat := (block.sockets.filter (·.side = .output)).length

def forOutputs (block : CustomBlock) (supply : Program Supply) : Program Plan := do
  return { outputs := ← (List.range block.outputCount).mapM fun i => return (i, ← supply) }

def plan (block : CustomBlock) (id : BlockId) (name : String) : Program Plan := do
  match block.script with
  | .relay =>
    let v ← value 0
    block.forOutputs (return .value v)
  | .passOn everyRead => block.forOutputs (supply everyRead (value 0))
  | .result => return { result := some (← value 0) }
  | .nameLength =>
    let length := Value.ofNat name.utf8ByteSize
    return { outputs := [((block.find? .output "output").getD 0, .onRead (return length))] }
  | .leaky =>
    let outer ← currentContexts
    setContexts
      { outer with
        execution := some (Execution.atStep id 42), geometry := some (.of .empty) }
    block.forOutputs (return .value (.int 1))
  | .byName =>
    match block.find? .input "value", block.find? .output "output" with
    | some input, some output =>
      let v ← value input
      return { outputs := [(output, .value v)] }
    | _, _ => return {}
  | .idle => return {}

end CustomBlock

namespace Block

def fixed (v : Value) : Program Plan := return { outputs := [(0, .value v)] }

/-- What the block with number `id` and name `name` does when it is built. -/
def plan (b : Block) (id : BlockId) (name : String) : Program Plan :=
  match b with
  | box everyRead => single everyRead (boxProgram id)
  | sphere everyRead => single everyRead (sphereProgram id)
  | plane everyRead => single everyRead (planeProgram id)
  | cylinder everyRead => single everyRead (cylinderProgram id)
  | pointList points => fixed (pointListValue id points)
  | mesh data reverseWinding => fixed (meshValue data reverseWinding)
  | input settings =>
    match settings.source with
    | some source => single true (contextual source)
    | none => fixed settings.value
  | output => do return { result := some (← value 0) }
  | math operation => single true (mathProgram operation)
  | random lock => single true (randomProgram lock)
  | vectorConverter => return converterPlan
  | shift => single true shiftProgram
  | scaling => single true scalingProgram
  | rotation axis => single true (rotationProgram axis)
  | matrixCompose => single true composeProgram
  | setAttribute target everyRead => single everyRead (setAttributeProgram id target)
  | computeNormals everyRead => single everyRead computeNormalsProgram
  | transform everyRead => single everyRead transformProgram
  | merge everyRead => single everyRead mergeProgram
  | info => return infoPlan
  | instantiate everyRead => single everyRead (instantiateProgram id)
  | instantiateOnFaces everyRead => single everyRead (instantiateOnFacesProgram id)
  | instantiateOnVertices everyRead removeDuplicates =>
    single everyRead (instantiateOnVerticesProgram id removeDuplicates)
  | instantiateOnVolume everyRead maxAttempts =>
    single everyRead (instantiateOnVolumeProgram id maxAttempts)
  | custom block => block.plan id name

end Block
end MeshFlow
