import MeshFlow.Build.Diagnostic

set_option autoImplicit false

/-!
# Programs

What a block does when it is built or read is a program: a tree of requests, each with the rest of
the program for every answer. A program names only inputs of its own block, so it cannot reach
anything but what feeds the block; everything that is proved of all programs holds of every block.
-/
namespace MeshFlow

inductive Program (α : Type) : Type where
  | done (result : α)
  /-- The value of an input. -/
  | read (input : Nat) (next : Value → Program α)
  /-- The value of an input adapted to a kind, if that can be done. -/
  | adapt (input : Nat) (kind : Kind) (next : Option Value → Program α)
  | isConnected (input : Nat) (next : Bool → Program α)
  /-- Whether reads of an input may differ from one another. -/
  | isVarying (input : Nat) (next : Bool → Program α)
  | contexts (next : Contexts → Program α)
  /-- Goes on under other contexts. -/
  | enter (contexts : Contexts) (next : Program α)
  /-- A random number from `[0, 1)`. -/
  | draw (next : Float32 → Program α)
  | record (diagnostic : Diagnostic) (next : Program α)
  /-- The value that the block has kept under a key. -/
  | kept (key : Int) (next : Option Value → Program α)
  /-- Keeps a value under a key, for the rest of the pass. -/
  | keep (key : Int) (value : Value) (next : Program α)

namespace Program

def bind {α β : Type} : Program α → (α → Program β) → Program β
  | done a, f => f a
  | read i k, f => read i fun v => (k v).bind f
  | adapt i kind k, f => adapt i kind fun v => (k v).bind f
  | isConnected i k, f => isConnected i fun b => (k b).bind f
  | isVarying i k, f => isVarying i fun b => (k b).bind f
  | contexts k, f => contexts fun c => (k c).bind f
  | enter c k, f => enter c (k.bind f)
  | draw k, f => draw fun x => (k x).bind f
  | record d k, f => record d (k.bind f)
  | kept key k, f => kept key fun v => (k v).bind f
  | keep key v k, f => keep key v (k.bind f)

instance : Monad Program where
  pure := done
  bind := bind

/-! ## Requests -/

def value (input : Nat) : Program Value := read input done

def adapted (input : Nat) (kind : Kind) : Program (Option Value) := adapt input kind done

def connected (input : Nat) : Program Bool := isConnected input done

def varying (input : Nat) : Program Bool := isVarying input done

def currentContexts : Program Contexts := contexts done

def setContexts (c : Contexts) : Program Unit := enter c (done ())

/-- Runs a program and puts the contexts back in force that it started under. -/
def inScope {α : Type} (program : Program α) : Program α := do
  let outer ← currentContexts
  let a ← program
  setContexts outer
  return a

def uniform : Program Float32 := draw done

def report (d : Diagnostic) : Program Unit := record d (done ())

/-- Hands on geometry of so many vertices; it is noted if an index into it does not fit. -/
def handOn (overflows : Bool) (vertices : Nat) (v : Value) : Program Value :=
  if overflows then do
    report (.overflow vertices)
    return v
  else return v

/-! ## Inputs as values of one kind -/

def float (input : Nat) (fallback : Float32) : Program Float32 := do
  return ((← adapted input .float).bind Value.float?).getD fallback

def int (input : Nat) (fallback : Int32) : Program Int32 := do
  return ((← adapted input .int).bind Value.int?).getD fallback

def vec3 (input : Nat) (fallback : Space.Vec3) : Program Space.Vec3 := do
  return ((← adapted input .vector3).bind Value.vec3?).getD fallback

def matrix? (input : Nat) : Program (Option Space.Matrix) := do
  return (← adapted input .matrix).bind Value.matrix?

def mesh? (input : Nat) : Program (Option Mesh) := do
  return (← adapted input .geometry).bind Value.mesh?

def contextual (source : ContextualSource) : Program Value := do
  let v := (← currentContexts).lookup source
  if v.isNull then report (.missingContextualData source)
  return v

def forEach {α σ : Type} (step : σ → α → Program σ) : List α → σ → Program σ
  | [], s => done s
  | a :: rest, s => (step s a).bind (forEach step rest)

end Program

/-- What an output holds once its block is built: a value, or a program that runs at every read. -/
inductive Supply where
  | value (v : Value)
  | onRead (program : Program Value)

/-- What a block hands on when it is built: a supply for some of its outputs, and maybe the result
of the whole pass. -/
structure Plan where
  outputs : List (Nat × Supply) := []
  result : Option Value := none

namespace Program

/-- A program for an output, to be run at every read or once, now. -/
def supply (everyRead : Bool) (program : Program Value) : Program Supply :=
  if everyRead then done (.onRead program) else do return .value (← program)

def single (everyRead : Bool) (program : Program Value) : Program Plan := do
  return { outputs := [(0, ← supply everyRead program)] }

end Program
end MeshFlow
