import MeshFlow.Graph.Ancestry
import MeshFlow.Proofs.Refining

set_option autoImplicit false

/-!
# Strict evaluation

Evaluation with everything checked that otherwise goes without saying. A block may call for blocks
strictly above it alone. It is completed when no contexts are in force and every output that feeds
it is stored, and has all its own outputs stored when it is. A read finds something stored, and a
stored program runs for the block that it is stored for. Where any of this fails, strict evaluation
gives out; else it goes the way of evaluation step by step.
-/
namespace MeshFlow

/-- Gives out unless the session is as it should be. -/
def check (ok : Session → Bool) : Build Unit := do
  guard (ok (← get))

theorem Refines.checked {α : Type} {c : Build Unit} (h : Refines c (pure ())) (b : Build α) :
    Refines (do c; b) b := by
  have skipped := h.bind fun _ => Refines.refl b
  rwa [pure_bind] at skipped

theorem Refines.then_checked {c : Build Unit} (h : Refines c (pure ())) (b : Build Unit) :
    Refines (do b; c) b := by
  have skipped := Refines.bind_right b fun _ => h
  rwa [bind_pure_unit] at skipped

theorem refines_guard (p : Prop) [Decidable p] : Refines (guard p) (pure ()) := by
  unfold guard
  split
  · exact .refl _
  · exact .of_failure _

theorem refines_check (ok : Session → Bool) : Refines (check ok) (pure ()) :=
  (Refines.bind_right get fun _ => refines_guard _).trans fun _ _ run => run

theorem ends_guard (p : Prop) [Decidable p] (s : Session) (post : Unit → Session → Prop) :
    Ends (guard p) s post ↔ p ∧ post () s := by
  unfold guard
  split
  · simp [ends_pure, *]
  · rename_i fails
    constructor
    · rintro ⟨_, _, run, -⟩
      cases run
    · rintro ⟨holds, -⟩
      exact absurd holds fails

theorem ends_check (ok : Session → Bool) (s : Session) (post : Unit → Session → Prop) :
    Ends (check ok) s post ↔ ok s ∧ post () s := by
  rw [check, ends_bind, ends_get, ends_guard]

/-- The same answers, for blocks of a sort alone. -/
def Supplier.only (above : Supplier) (may : BlockId → Bool) : Supplier where
  build id := do
    guard (may id)
    above.build id
  read p := do
    guard (may p.block)
    above.read p

def Contexts.isEmpty (c : Contexts) : Bool :=
  c.execution.isNone && c.instancing.isNone && c.geometry.isNone

namespace Graph

/-- There is such a block, and something is stored for each of its outputs. -/
def isStored (g : Graph) (s : Session) (id : BlockId) : Bool :=
  (g.node? id).any fun node =>
    (List.range node.outputs.length).all fun index => (s.stored.lookup (.output id index)).isSome

/-- No contexts are in force, and what feeds the block is stored. -/
def inTurn (g : Graph) (s : Session) (node : Node) : Bool :=
  s.contexts.isEmpty && node.peers.all fun o => g.isStored s o.block

def strictNode (g : Graph) (above : Supplier) (id : BlockId) (node : Node) : Build Unit := do
  buildAll above node.peers
  check (g.inTurn · node)
  g.completeNode above id node
  check (g.isStored · id)

def strictBlock (g : Graph) (above : Supplier) (id : BlockId) : Build Unit := do
  if (← get).built.contains id then return ()
  else
    modify fun s => { s with built := id :: s.built }
    match g.node? id with
    | none => failure
    | some node => g.strictNode above id node

def strictOutput (g : Graph) (above : Supplier) (output : SocketId) : Build Value := do
  g.strictBlock above output.block
  match (← get).stored.lookup output with
  | none => failure
  | some (.value v) => return v
  | some (.deferred owner program) =>
    guard (owner = output.block)
    g.runProgram above owner program

/-- Every call is for a block strictly above the one that makes it, and no more than `depth` calls
are underway at once. -/
def strictWithin (g : Graph) : (depth : Nat) → Supplier
  | 0 => { build := fun _ => failure, read := fun _ => failure }
  | depth + 1 =>
    let above := g.strictWithin depth
    { build := fun id => g.strictBlock (above.only fun a => g.isAncestorOf a id) id
      read := fun p => g.strictOutput (above.only fun a => g.isAncestorOf a p.block) p }

variable {above above' : Supplier} (g : Graph)

theorem refines_only (h : above.Refines above') (may : BlockId → Bool) :
    (above.only may).Refines above' where
  build id := (Refines.checked (refines_guard _) _).trans (h.build id)
  read p := (Refines.checked (refines_guard _) _).trans (h.read p)

theorem strictNode_refines (h : above.Refines above') (id : BlockId) (node : Node) :
    Refines (g.strictNode above id node) (g.buildNode above' id node) := by
  rw [buildNode_eq]
  refine (refines_buildAll h node.peers).bind fun _ => ?_
  refine (Refines.checked (refines_check _) _).trans ?_
  exact (Refines.then_checked (refines_check _) _).trans (g.refines_completeNode h id node)

theorem strictBlock_refines (h : above.Refines above') (id : BlockId) :
    Refines (g.strictBlock above id) (g.buildBlockWith above' id) := by
  refine .bind_right _ fun s => ?_
  split
  · exact .refl _
  · refine .bind_right _ fun _ => ?_
    cases g.node? id with
    | none => exact .of_failure _
    | some node => exact g.strictNode_refines h id node

theorem strictOutput_refines (h : above.Refines above') (p : SocketId) :
    Refines (g.strictOutput above p) (g.readOutputWith above' p) := by
  refine (g.strictBlock_refines h p.block).bind fun _ => .bind_right _ fun s => ?_
  cases s.stored.lookup p with
  | none => exact .of_failure _
  | some x =>
    cases x with
    | value v => exact .refl _
    | deferred owner program =>
      exact (Refines.checked (refines_guard _) _).trans (g.refines_runProgram h owner program)

theorem strictWithin_refines (depth : Nat) :
    (g.strictWithin depth).Refines (g.supplierWithin depth) := by
  induction depth with
  | zero => exact ⟨fun _ => .of_failure _, fun _ => .of_failure _⟩
  | succ depth ih =>
    exact ⟨fun id => g.strictBlock_refines (refines_only ih _) id,
      fun p => g.strictOutput_refines (refines_only ih _) p⟩

theorem strictResult_refines {depth : Nat} (le : depth ≤ g.size + 1) (id : BlockId) (node : Node) :
    Refines (resultFrom (g.strictWithin depth) id node) (g.resultValue id node) :=
  refines_resultFrom ((g.strictWithin_refines depth).trans (g.supplierWithin_refines le)) id node

end Graph
end MeshFlow
