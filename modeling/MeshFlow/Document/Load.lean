import MeshFlow.Block.Registry
import MeshFlow.Document.Basic
import MeshFlow.Graph.Wiring

set_option autoImplicit false

/-!
# Loading graphs

Blocks come first, each with its settings and its literals; literals of inputs that the block no
longer has are passed over. Then the connections are made in their order, whatever their kinds, but
never a cycle.
-/
namespace MeshFlow

inductive LoadError where
  /-- The text is not the JSON of a saved graph. -/
  | malformed
  | create (error : CreateError)
  | graph (error : GraphError)
  | invalidProperty (block : BlockId) (property reason : String)

namespace LoadError

def message? : LoadError → Option String
  | malformed => none
  | create (.unknownClass className) => some s!"unknown block type: {className}"
  | create (.properties error) => error.detail?
  | graph error => some s!"graph error: {error.message}"
  | invalidProperty block property reason => some s!"block {block}: invalid {property}: {reason}"

end LoadError

namespace Graph

def loadInput (g : Graph) (id : BlockId) (saved : SavedInput) : Except LoadError Graph :=
  match saved.value, g.namedSocket id .input saved.name with
  | some j, .ok p =>
    let declared := ((g.socket? p).map (·.spec.kind)).getD .float
    match Value.literal? declared j with
    | some v => (g.setDefault p v).mapError .graph
    | none =>
      .error (.invalidProperty id saved.name s!"{j.compact} is not a {declared.name} literal")
  | _, _ => .ok g

def loadBlock (r : Registry) (g : Graph) (saved : SavedBlock) : Except LoadError Graph := do
  let block ← (r.create saved.className (.object saved.properties)).mapError .create
  let g ← (g.insert saved.id saved.name block).mapError .graph
  saved.inputs.foldlM (fun g i => g.loadInput saved.id i) g

def loadConnection (g : Graph) (saved : SavedConnection) : Except GraphError Graph := do
  let output ← g.namedSocket saved.outputBlock .output saved.outputSocket
  let input ← g.namedSocket saved.inputBlock .input saved.inputSocket
  g.connectUnchecked output input

def load (r : Registry) (saved : SavedGraph) : Except LoadError Graph := do
  let g ← saved.blocks.foldlM (loadBlock r) Graph.empty
  let g ← (saved.connections.foldlM loadConnection g).mapError .graph
  match saved.output with
  | some id => (g.setOutput id).mapError .graph
  | none => return g

def loadText (r : Registry) (text : String) : Except LoadError Graph :=
  match SavedGraph.ofText? text with
  | some saved => load r saved
  | none => .error .malformed

end Graph
end MeshFlow
