import MeshFlow.Build.Context

set_option autoImplicit false

/-!
# Diagnostics

What went wrong during a build that nevertheless went on, and the one thing that ends it at once.
-/
namespace MeshFlow

inductive Diagnostic where
  /-- An input that has to be connected is not. -/
  | unconnectedInput (block : BlockId) (blockName socket : String)
  /-- A contextual source was read where nothing answers it. -/
  | missingContextualData (source : ContextualSource)
  /-- A block got geometry that it cannot use. -/
  | invalidGeometry (block : BlockId) (reason : String)
  /-- A value could not be adapted to the kind that was needed. -/
  | typeMismatch (block : BlockId) (socket : String) (expected : Kind) (got : Option Kind)
  /-- Geometry of so many vertices needs an index that does not fit. Nothing is seen of what a pass
  comes to after that. -/
  | overflow (vertices : Nat)
  deriving DecidableEq

namespace Diagnostic

def label : Diagnostic → String
  | unconnectedInput .. => "UnconnectedInput"
  | missingContextualData .. => "MissingContextualData"
  | invalidGeometry .. => "InvalidGeometry"
  | typeMismatch .. => "TypeMismatch"
  | overflow _ => "Overflow"

def message : Diagnostic → String
  | unconnectedInput block blockName socket =>
    s!"required input '{socket}' of block {block} ({blockName}) is not connected"
  | missingContextualData source => s!"no contextual data available for {source.name}"
  | invalidGeometry block reason => s!"block {block}: invalid geometry: {reason}"
  | typeMismatch block socket expected got =>
    s!"block {block}: input '{socket}' expected {expected.name}, got {Kind.nameOrNull got}"
  | overflow vertices => s!"an index into {vertices} vertices does not fit"

def isOverflow : Diagnostic → Bool
  | overflow _ => true
  | unconnectedInput .. | missingContextualData _ | invalidGeometry .. | typeMismatch .. => false

end Diagnostic
end MeshFlow
