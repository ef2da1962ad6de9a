import MeshFlow.Build.Config
import MeshFlow.Build.Program
import MeshFlow.Graph.Basic
import MeshFlow.Random.Generator
import Std.Data.HashMap

set_option autoImplicit false

/-!
# Sessions

The state of one build pass: what the outputs hold, which blocks have been built, the contexts in
force, the random generator with the values kept, and what was found wrong.
-/
namespace MeshFlow

inductive Stored where
  | value (v : Value)
  /-- A program of the block `owner`, run at every read. -/
  | deferred (owner : BlockId) (program : Program Value)

structure Session where
  config : BuildConfig
  generator : Random.Generator
  contexts : Contexts := {}
  /-- The latest entry of a socket comes first. -/
  stored : List (SocketId × Stored) := []
  /-- Blocks already visited, the latest first. -/
  built : List BlockId := []
  diagnostics : List Diagnostic := []
  result : Option Value := none
  /-- Values that blocks keep under keys. -/
  kept : Std.HashMap (BlockId × Int) Value := ∅

/-- A computation on a session; it gives out when blocks feed themselves. -/
abbrev Build := StateT Session Option

namespace Session

def start (config : BuildConfig) : Session where
  config
  generator := config.generator

def isLost (s : Session) : Bool := s.diagnostics.any Diagnostic.isOverflow

def record (s : Session) (d : Diagnostic) : Session :=
  if s.diagnostics.contains d then s else { s with diagnostics := s.diagnostics ++ [d] }

def store (s : Session) (p : SocketId) (x : Stored) : Session :=
  { s with stored := (p, x) :: s.stored }

/-- Stores what a plan says of the outputs of a block, and its result if it has one. -/
def follow (s : Session) (id : BlockId) (plan : Plan) : Session :=
  let s := plan.outputs.foldl
    (fun s (index, supply) =>
      s.store (.output id index) <| match supply with
        | .value v => .value v
        | .onRead program => .deferred id program)
    s
  { s with result := plan.result <|> s.result }

def storeNulls (s : Session) (id : BlockId) (outputs : Nat) : Session :=
  (List.range outputs).foldl (fun s index => s.store (.output id index) (.value .null)) s

def isDeferred (s : Session) (p : SocketId) : Bool :=
  match s.stored.lookup p with
  | some (.deferred ..) => true
  | _ => false

end Session
end MeshFlow
