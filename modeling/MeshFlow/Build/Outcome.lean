import MeshFlow.Build.Evaluation
import MeshFlow.Mesh.Validity

set_option autoImplicit false

/-!
# Building a graph

The result of a graph is what its output block hands over as the result of the pass, or else its
first output. A build fails for want of an output block alone; everything else that goes wrong is
among the diagnostics.
-/
namespace MeshFlow

structure Outcome where
  geometry : Option Mesh
  diagnostics : List Diagnostic

def Outcome.isClean (o : Outcome) : Bool := o.diagnostics.isEmpty

/-- The pass has come to an index that does not fit, so that nobody gets to see the outcome. -/
def Outcome.isLost (o : Outcome) : Bool := o.diagnostics.any Diagnostic.isOverflow

namespace Graph

def resultValue (g : Graph) (id : BlockId) (node : Node) : Build Value := do
  g.supplier.build id
  match (← get).result with
  | some v => return v
  | none => if node.outputs.isEmpty then return .null else g.supplier.read (.output id 0)

/-- The geometry that a value is. Invalid geometry is reported and handed on; any other value is
reported and left out. -/
def finish (id : BlockId) (node : Node) : Value → Build (Option Mesh)
  | .null => return none
  | .geometry m => do
    match m.validate with
    | .ok () => pure ()
    | .error fault => modify (·.record (.invalidGeometry id fault.message))
    return some m
  | other => do
    let socket := (node.outputs.head?.map (·.spec.name)).getD ""
    modify (·.record (.typeMismatch id socket .geometry other.kind?))
    return none

def build (g : Graph) (config : BuildConfig) : Except GraphError Outcome := do
  match g.output with
  | none => .error .noOutputBlock
  | some id =>
    let node ← g.requireNode id
    let pass : Build (Option Mesh) := do finish id node (← g.resultValue id node)
    match pass.run (.start config) with
    | some (geometry, session) => .ok ⟨geometry, session.diagnostics⟩
    | none => .error .circular

end Graph
end MeshFlow
