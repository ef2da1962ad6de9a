import MeshFlow.Block.Sockets
import MeshFlow.Build.Program

set_option autoImplicit false

/-!
# Blocks that compute with numbers

Arithmetic, random numbers, and vectors put together and taken apart.
-/
namespace MeshFlow.Block
open Program Space

/-- Works on the components of the first operand and of the second one adapted to its kind. -/
def mathProgram (operation : Operation) : Program Value := do
  let left ← value 0
  match left.kind? with
  | none => return .null
  | some kind =>
    let right ← adapted 1 kind
    match left.components?, right.bind Value.components? with
    | some a, some b =>
      return (Value.ofComponents? kind (List.zipWith operation.apply a b)).getD .null
    | _, _ => return .null

def between (kind : Kind) (low high unit : Float32) : Float32 :=
  let x := low + (high - low) * unit
  if kind = .int then Number.floor x else x

def drawComponents (kind : Kind) : List (Float32 × Float32) → Program (List Float32)
  | [] => return []
  | (low, high) :: rest => do
    let unit ← uniform
    return between kind low high unit :: (← drawComponents kind rest)

def freshRandom : Program Value := do
  let low ← value 0
  match low.kind? with
  | none => return .null
  | some kind =>
    if !kind.isNumeric then return .null
    else
      let high ← adapted 1 kind
      match low.components?, high.bind Value.components? with
      | some a, some b =>
        return (Value.ofComponents? kind (← drawComponents kind (a.zip b))).getD .null
      | _, _ => return .null

/-- The value kept under a key, drawn and kept at first need. -/
def keptRandom (key : Int) : Program Value :=
  .kept key fun
    | some v => return v
    | none => do
      let v ← freshRandom
      .keep key v (.done v)

def randomProgram (lock : Lock) : Program Value := do
  match lock with
  | .none => freshRandom
  | .once => keptRandom 0
  | .loopId => keptFor (← contextual .loopId)
  | .instanceId => keptFor (← contextual .instanceId)
where
  keptFor (number : Value) : Program Value :=
    match number with
    | .int i => keptRandom i.toInt
    | _ => freshRandom

def vectorInput4 (input : Nat) (kind : Kind) : Program Vec4 := do
  let v ← adapted input kind
  return ((v.bind (·.coerce? .vector4)).bind Value.vec4?).getD .zero

def componentInput (input : Nat) (base : Float32) : Program Float32 := do
  if ← connected input then float input base else return base

/-- The first connected vector with the connected components put in. -/
def combinedVector : Program Vec4 := do
  let base ←
    if ← connected 0 then vectorInput4 0 .vector4
    else if ← connected 1 then vectorInput4 1 .vector3
    else if ← connected 2 then vectorInput4 2 .vector2
    else pure Vec4.zero
  let x ← componentInput 3 base.x
  let y ← componentInput 4 base.y
  let z ← componentInput 5 base.z
  let w ← componentInput 6 base.w
  return ⟨x, y, z, w⟩

def converterViews : List (Vec4 → Value) :=
  [.vector4, fun v => .vector3 v.xyz, fun v => .vector2 v.xy, fun v => .float v.x,
    fun v => .float v.y, fun v => .float v.z, fun v => .float v.w]

def converterPlan : Plan where
  outputs := converterViews.zipIdx.map fun (view, i) =>
    (i, .onRead do return view (← combinedVector))

end MeshFlow.Block
