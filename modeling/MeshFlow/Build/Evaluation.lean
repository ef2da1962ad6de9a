import MeshFlow.Block.Plans
import MeshFlow.Build.Session

set_option autoImplicit false

/-!
# Evaluation

Blocks are built on demand, once in a pass, after the blocks that feed them. A read of an output
builds its block and then takes the stored value or runs the stored program. Every step of this
recursion goes to a block above; `supplierWithin n` answers for blocks with at most `n` blocks
above one another, and gives out for others.
-/
namespace MeshFlow

/-- What a block can ask of the blocks that feed it. -/
structure Supplier where
  build : BlockId → Build Unit
  read : SocketId → Build Value

def keepingContexts {α : Type} (b : Build α) : Build α := do
  let contexts := (← get).contexts
  let a ← b
  modify fun s => { s with contexts }
  return a

namespace Graph

/-! ## Inputs -/

def readInput (g : Graph) (above : Supplier) (p : SocketId) : Build Value :=
  match g.socket? p with
  | none => return .null
  | some socket =>
    match socket.peer with
    | some output => above.read output
    | none => return socket.default?.getD .null

/-- The value of an input adapted to a kind. A value that is not null and cannot be adapted is
reported. -/
def adaptInput (g : Graph) (above : Supplier) (p : SocketId) (kind : Kind) :
    Build (Option Value) := do
  let v ← g.readInput above p
  match v.coerce? kind with
  | some adapted => return some adapted
  | none =>
    if !v.isNull then
      let name := ((g.socket? p).map (·.spec.name)).getD ""
      modify (·.record (.typeMismatch p.block name kind v.kind?))
    return none

/-! Inputs as values of one kind, with a fallback for what cannot be adapted. -/

def readFloat (g : Graph) (above : Supplier) (p : SocketId) (fallback : Float32) :
    Build Float32 := do
  return ((← g.adaptInput above p .float).bind Value.float?).getD fallback

def readInt (g : Graph) (above : Supplier) (p : SocketId) (fallback : Int32) : Build Int32 := do
  return ((← g.adaptInput above p .int).bind Value.int?).getD fallback

def readVec3 (g : Graph) (above : Supplier) (p : SocketId) (fallback : Space.Vec3) :
    Build Space.Vec3 := do
  return ((← g.adaptInput above p .vector3).bind Value.vec3?).getD fallback

def readMatrix? (g : Graph) (above : Supplier) (p : SocketId) : Build (Option Space.Matrix) := do
  return (← g.adaptInput above p .matrix).bind Value.matrix?

def readMesh? (g : Graph) (above : Supplier) (p : SocketId) : Build (Option Mesh) := do
  return (← g.adaptInput above p .geometry).bind Value.mesh?

def isVarying (g : Graph) (above : Supplier) (p : SocketId) : Build Bool :=
  match g.peer? p with
  | none => return false
  | some output => do
    above.build output.block
    return (← get).isDeferred output

/-! ## Programs -/

def runProgram {α : Type} (g : Graph) (above : Supplier) (owner : BlockId) : Program α → Build α
  | .done a => return a
  | .read i k => do g.runProgram above owner (k (← g.readInput above (.input owner i)))
  | .adapt i kind k => do
    g.runProgram above owner (k (← g.adaptInput above (.input owner i) kind))
  | .isConnected i k => g.runProgram above owner (k (g.isConnected (.input owner i)))
  | .isVarying i k => do g.runProgram above owner (k (← g.isVarying above (.input owner i)))
  | .contexts k => do g.runProgram above owner (k (← get).contexts)
  | .enter contexts k => do
    modify fun s => { s with contexts }
    g.runProgram above owner k
  | .draw k => do
    let (unit, generator) := (← get).generator.unit
    modify fun s => { s with generator }
    g.runProgram above owner (k unit)
  | .record d k => do
    modify (·.record d)
    g.runProgram above owner k
  | .kept key k => do g.runProgram above owner (k (← get).kept[(owner, key)]?)
  | .keep key v k => do
    modify fun s => { s with kept := s.kept.insert (owner, key) v }
    g.runProgram above owner k

/-! ## Blocks -/

def buildAll (above : Supplier) : List SocketId → Build Unit
  | [] => return ()
  | output :: rest => do
    above.build output.block
    buildAll above rest

/-- Builds one block, after those that feed it. A block with a missing input is reported and yields
null. -/
def buildNode (g : Graph) (above : Supplier) (id : BlockId) (node : Node) : Build Unit := do
  buildAll above node.peers
  if node.missingInputs.isEmpty then
    let plan ← keepingContexts (g.runProgram above id (node.block.plan id node.name))
    modify (·.follow id plan)
  else
    modify fun s =>
      (node.missingInputs.foldl
        (fun s p => s.record (.unconnectedInput id node.name p.spec.name)) s).storeNulls
        id node.outputs.length

/-- Builds a block unless it has been built; a number without a block counts as built. -/
def buildBlockWith (g : Graph) (above : Supplier) (id : BlockId) : Build Unit := do
  if (← get).built.contains id then return ()
  else
    modify fun s => { s with built := id :: s.built }
    match g.node? id with
    | none => return ()
    | some node => g.buildNode above id node

/-- Reads an output, after building its block. -/
def readOutputWith (g : Graph) (above : Supplier) (output : SocketId) : Build Value := do
  g.buildBlockWith above output.block
  match (← get).stored.lookup output with
  | none => return .null
  | some (.value v) => return v
  | some (.deferred owner program) => g.runProgram above owner program

/-- Answers for blocks with at most that many blocks above one another. -/
def supplierWithin (g : Graph) : Nat → Supplier
  | 0 => { build := fun _ => failure, read := fun _ => failure }
  | depth + 1 =>
    let above := g.supplierWithin depth
    { build := g.buildBlockWith above, read := g.readOutputWith above }

def supplier (g : Graph) : Supplier := g.supplierWithin (g.size + 1)

end Graph
end MeshFlow
