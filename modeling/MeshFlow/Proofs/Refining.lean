import MeshFlow.Build.Outcome
import MeshFlow.Proofs.Always

set_option autoImplicit false

/-!
# Suppliers that answer more

One computation refines another if it comes to the same wherever the other comes to anything. What
a block does with the blocks above only grows with what these answer: where a supplier gives out
less often, so does everything that is built on it. In particular a pass comes to the same however
deep it may go, as long as it comes to anything.
-/
namespace MeshFlow

/-- The second computation comes to whatever the first comes to. -/
def Refines {α : Type} (b b' : Build α) : Prop :=
  ∀ s r, b.run s = some r → b'.run s = some r

namespace Refines
variable {α β : Type} {b b' b'' : Build α}

theorem refl (b : Build α) : Refines b b := fun _ _ run => run

theorem trans (h : Refines b b') (h' : Refines b' b'') : Refines b b'' :=
  fun s r run => h' s r (h s r run)

theorem of_failure (b : Build α) : Refines failure b := by
  intro s r run
  cases run

theorem bind (h : Refines b b') {f f' : α → Build β} (h' : ∀ a, Refines (f a) (f' a)) :
    Refines (b >>= f) (b' >>= f') := by
  intro s r run
  simp only [StateT.run_bind, Option.bind_eq_bind, Option.bind_eq_some_iff] at run ⊢
  obtain ⟨⟨a, s'⟩, first, second⟩ := run
  exact ⟨(a, s'), h s _ first, h' a s' r second⟩

theorem bind_right (b : Build α) {f f' : α → Build β} (h : ∀ a, Refines (f a) (f' a)) :
    Refines (b >>= f) (b >>= f') :=
  (refl b).bind h

end Refines

/-- The second supplier answers whatever the first answers. -/
structure Supplier.Refines (above above' : Supplier) : Prop where
  build : ∀ id, MeshFlow.Refines (above.build id) (above'.build id)
  read : ∀ p, MeshFlow.Refines (above.read p) (above'.read p)

theorem Supplier.Refines.trans {above above' above'' : Supplier} (h : above.Refines above')
    (h' : above'.Refines above'') : above.Refines above'' :=
  ⟨fun id => (h.build id).trans (h'.build id), fun p => (h.read p).trans (h'.read p)⟩

namespace Graph
variable {above above' : Supplier} (g : Graph)

theorem refines_readInput (h : above.Refines above') (p : SocketId) :
    Refines (g.readInput above p) (g.readInput above' p) := by
  unfold readInput
  cases g.socket? p with
  | none => exact .refl _
  | some socket =>
    cases hp : socket.peer with
    | none => simpa only [hp] using .refl _
    | some o => simpa only [hp] using h.read o

theorem refines_adaptInput (h : above.Refines above') (p : SocketId) (kind : Kind) :
    Refines (g.adaptInput above p kind) (g.adaptInput above' p kind) :=
  (g.refines_readInput h p).bind fun _ => .refl _

theorem refines_isVarying (h : above.Refines above') (p : SocketId) :
    Refines (g.isVarying above p) (g.isVarying above' p) := by
  rw [isVarying, isVarying]
  cases g.peer? p with
  | none => exact .refl _
  | some o => exact (h.build o.block).bind fun _ => .refl _

theorem refines_runProgram {α : Type} (h : above.Refines above') (owner : BlockId)
    (program : Program α) :
    Refines (g.runProgram above owner program) (g.runProgram above' owner program) := by
  induction program with
  | done a => exact .refl _
  | read i k ih => exact (g.refines_readInput h _).bind ih
  | adapt i kind k ih => exact (g.refines_adaptInput h _ kind).bind ih
  | isConnected i k ih => exact ih _
  | isVarying i k ih => exact (g.refines_isVarying h _).bind ih
  | contexts k ih => exact .bind_right _ fun s => ih s.contexts
  | enter c k ih => exact .bind_right _ fun _ => ih
  | draw k ih => exact .bind_right _ fun s => .bind_right _ fun _ => ih _
  | record d k ih => exact .bind_right _ fun _ => ih
  | kept key k ih => exact .bind_right _ fun s => ih s.kept[(owner, key)]?
  | keep key v k ih => exact .bind_right _ fun _ => ih

theorem refines_buildAll (h : above.Refines above') (outputs : List SocketId) :
    Refines (buildAll above outputs) (buildAll above' outputs) := by
  induction outputs with
  | nil => exact .refl _
  | cons o rest ih => exact (h.build o.block).bind fun _ => ih

/-- What is left to do for a block after those that feed it. -/
def completeNode (g : Graph) (above : Supplier) (id : BlockId) (node : Node) : Build Unit := do
  if node.missingInputs.isEmpty then
    let plan ← keepingContexts (g.runProgram above id (node.block.plan id node.name))
    modify (·.follow id plan)
  else
    modify fun s =>
      (node.missingInputs.foldl
        (fun s p => s.record (.unconnectedInput id node.name p.spec.name)) s).storeNulls
        id node.outputs.length

theorem buildNode_eq (above : Supplier) (id : BlockId) (node : Node) :
    g.buildNode above id node
      = buildAll above node.peers >>= fun _ => g.completeNode above id node := rfl

theorem refines_completeNode (h : above.Refines above') (id : BlockId) (node : Node) :
    Refines (g.completeNode above id node) (g.completeNode above' id node) := by
  unfold completeNode
  split
  · have run := g.refines_runProgram h id (node.block.plan id node.name)
    exact .bind (.bind_right _ fun _ => run.bind fun _ => .refl _) fun _ => .refl _
  · exact .refl _

theorem refines_buildNode (h : above.Refines above') (id : BlockId) (node : Node) :
    Refines (g.buildNode above id node) (g.buildNode above' id node) :=
  (refines_buildAll h node.peers).bind fun _ => g.refines_completeNode h id node

theorem refines_buildBlockWith (h : above.Refines above') (id : BlockId) :
    Refines (g.buildBlockWith above id) (g.buildBlockWith above' id) := by
  refine .bind_right _ fun s => ?_
  split
  · exact .refl _
  · refine .bind_right _ fun _ => ?_
    cases g.node? id with
    | none => exact .refl _
    | some node => exact g.refines_buildNode h id node

theorem refines_readOutputWith (h : above.Refines above') (p : SocketId) :
    Refines (g.readOutputWith above p) (g.readOutputWith above' p) := by
  refine (g.refines_buildBlockWith h p.block).bind fun _ => .bind_right _ fun s => ?_
  cases s.stored.lookup p with
  | none => exact .refl _
  | some x =>
    cases x with
    | value v => exact .refl _
    | deferred owner program => exact g.refines_runProgram h owner program

theorem supplierWithin_refines {n m : Nat} (le : n ≤ m) :
    (g.supplierWithin n).Refines (g.supplierWithin m) := by
  induction n generalizing m with
  | zero => exact ⟨fun _ => .of_failure _, fun _ => .of_failure _⟩
  | succ n ih =>
    obtain ⟨m, rfl⟩ := Nat.exists_eq_add_of_le' (Nat.lt_of_lt_of_le (Nat.succ_pos n) le)
    have above := ih (Nat.le_of_succ_le_succ le)
    exact ⟨fun id => g.refines_buildBlockWith above id, fun p => g.refines_readOutputWith above p⟩

def resultFrom (above : Supplier) (id : BlockId) (node : Node) : Build Value := do
  above.build id
  match (← get).result with
  | some v => return v
  | none => if node.outputs.isEmpty then return .null else above.read (.output id 0)

theorem resultValue_eq (id : BlockId) (node : Node) :
    g.resultValue id node = resultFrom g.supplier id node := rfl

theorem refines_resultFrom (h : above.Refines above') (id : BlockId) (node : Node) :
    Refines (resultFrom above id node) (resultFrom above' id node) := by
  refine (h.build id).bind fun _ => .bind_right _ fun s => ?_
  cases s.result with
  | some v => exact .refl _
  | none =>
    dsimp only
    split
    · exact .refl _
    · exact h.read (.output id 0)

end Graph
end MeshFlow
