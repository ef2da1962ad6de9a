import MeshFlow.Proofs.Pass
import MeshFlow.Proofs.Refining

set_option autoImplicit false

/-!
# Nothing heeds what has been reported

A pass reports what goes wrong and goes on. No block looks at the reports: whatever has been reported
before, every call comes to the same and leaves the same behind, but for the reports.
-/
namespace MeshFlow

/-- The computation comes to the same whatever has been reported before. -/
def Heedless {α : Type} (b : Build α) : Prop :=
  ∀ s a s', b.run s = some (a, s') → ∀ reported, ∃ reported',
    b.run { s with diagnostics := reported } = some (a, { s' with diagnostics := reported' })

section
variable {α β : Type}

theorem heedless_pure (a : α) : Heedless (pure a : Build α) := by
  rintro s _ _ ⟨⟩ reported
  exact ⟨reported, rfl⟩

theorem Heedless.bind {b : Build α} (h : Heedless b) {f : α → Build β} (h' : ∀ a, Heedless (f a)) :
    Heedless (b >>= f) := by
  intro s c s'' run reported
  simp only [StateT.run_bind, Option.bind_eq_bind, Option.bind_eq_some_iff] at run
  obtain ⟨⟨a, s'⟩, first, second⟩ := run
  obtain ⟨reported', first'⟩ := h s a s' first reported
  obtain ⟨reported'', second'⟩ := h' a s' c s'' second reported'
  refine ⟨reported'', ?_⟩
  simp only [StateT.run_bind, first', Option.bind_eq_bind, Option.bind_some]
  exact second'

theorem heedless_get {f : Session → Build β}
    (same : ∀ s reported, f { s with diagnostics := reported } = f s)
    (h : ∀ s, Heedless (f s)) : Heedless (get >>= f) := by
  intro s c s' run reported
  obtain ⟨reported', run'⟩ := h s s c s' run reported
  rw [← same s reported] at run'
  exact ⟨reported', run'⟩

theorem heedless_modify {f : Session → Session}
    (h : ∀ s reported, ∃ reported',
      f { s with diagnostics := reported } = { f s with diagnostics := reported' }) :
    Heedless (modify f : Build PUnit) := by
  rintro s _ _ ⟨⟩ reported
  obtain ⟨reported', same⟩ := h s reported
  exact ⟨reported', congrArg (fun s => some (PUnit.unit, s)) same⟩

end

theorem Session.record_reported (s : Session) (d : Diagnostic) (reported : List Diagnostic) :
    ∃ reported', Session.record { s with diagnostics := reported } d
      = { s.record d with diagnostics := reported' } := by
  simp only [Session.record]
  split <;> split <;> exact ⟨_, rfl⟩

theorem Session.foldl_record_reported {ι : Type} (d : ι → Diagnostic) (entries : List ι)
    (s : Session) (reported : List Diagnostic) :
    ∃ reported', entries.foldl (fun s a => s.record (d a)) { s with diagnostics := reported }
      = { entries.foldl (fun s a => s.record (d a)) s with diagnostics := reported' } := by
  induction entries generalizing s reported with
  | nil => exact ⟨reported, rfl⟩
  | cons a rest ih =>
    obtain ⟨reported', same⟩ := s.record_reported (d a) reported
    rw [List.foldl_cons, List.foldl_cons, same]
    exact ih (s.record (d a)) reported'

structure Supplier.Heedless (above : Supplier) : Prop where
  build : ∀ id, MeshFlow.Heedless (above.build id)
  read : ∀ p, MeshFlow.Heedless (above.read p)

namespace Supplier.Heedless
variable {g : Graph} {above : Supplier}

theorem readInput (h : above.Heedless) (p : SocketId) : MeshFlow.Heedless (g.readInput above p) := by
  rw [Graph.readInput]
  split
  · exact heedless_pure _
  · split
    · exact h.read _
    · exact heedless_pure _

theorem adaptInput (h : above.Heedless) (p : SocketId) (kind : Kind) :
    MeshFlow.Heedless (g.adaptInput above p kind) := by
  refine (h.readInput p).bind fun v => ?_
  split
  · exact heedless_pure _
  · split
    · exact (heedless_modify fun s reported => s.record_reported _ reported).bind fun _ =>
        heedless_pure _
    · exact heedless_pure _

theorem isVarying (h : above.Heedless) (p : SocketId) :
    MeshFlow.Heedless (g.isVarying above p) := by
  rw [Graph.isVarying]
  split
  · exact heedless_pure _
  · exact (h.build _).bind fun _ => heedless_get (fun _ _ => rfl) fun _ => heedless_pure _

theorem runProgram {α : Type} (h : above.Heedless) (owner : BlockId) (p : Program α) :
    MeshFlow.Heedless (g.runProgram above owner p) := by
  induction p with
  | done a => exact heedless_pure a
  | read i k ih => exact (h.readInput _).bind ih
  | adapt i kind k ih => exact (h.adaptInput _ kind).bind ih
  | isConnected i k ih => exact ih _
  | isVarying i k ih => exact (h.isVarying _).bind ih
  | contexts k ih => exact heedless_get (fun _ _ => rfl) fun s => ih s.contexts
  | enter c k ih => exact (heedless_modify fun _ reported => ⟨reported, rfl⟩).bind fun _ => ih
  | draw k ih =>
    exact heedless_get (fun _ _ => rfl) fun s =>
      (heedless_modify fun _ reported => ⟨reported, by rfl⟩).bind fun _ => ih s.generator.unit.1
  | record d k ih =>
    exact (heedless_modify fun s reported => s.record_reported d reported).bind fun _ => ih
  | kept key k ih => exact heedless_get (fun _ _ => rfl) fun s => ih s.kept[(owner, key)]?
  | keep key v k ih => exact (heedless_modify fun _ reported => ⟨reported, rfl⟩).bind fun _ => ih

theorem buildAll (h : above.Heedless) (outputs : List SocketId) :
    MeshFlow.Heedless (Graph.buildAll above outputs) := by
  induction outputs with
  | nil => exact heedless_pure _
  | cons o rest ih => exact (h.build _).bind fun _ => ih

theorem completeNode (h : above.Heedless) (id : BlockId) (node : Node) :
    MeshFlow.Heedless (g.completeNode above id node) := by
  unfold Graph.completeNode
  split
  · refine .bind ?_ fun plan => heedless_modify fun s reported => ⟨reported, ?_⟩
    · exact heedless_get (fun _ _ => rfl) fun _ => (h.runProgram id _).bind fun _ =>
        (heedless_modify fun _ reported => ⟨reported, by rfl⟩).bind fun _ => heedless_pure _
    · rw [Session.follow_eq, Session.follow_eq]
      rfl
  · refine heedless_modify fun s reported => ?_
    obtain ⟨reported', same⟩ := Session.foldl_record_reported
      (fun p => .unconnectedInput id node.name p.spec.name) node.missingInputs s reported
    refine ⟨reported', ?_⟩
    rw [same, Session.storeNulls_eq, Session.storeNulls_eq]
    rfl

theorem buildBlockWith (h : above.Heedless) (id : BlockId) :
    MeshFlow.Heedless (g.buildBlockWith above id) := by
  refine heedless_get (fun _ _ => rfl) fun s => ?_
  split
  · exact heedless_pure _
  · refine (heedless_modify fun _ reported => ⟨reported, by rfl⟩).bind fun _ => ?_
    split
    · exact heedless_pure _
    · rw [Graph.buildNode_eq]
      exact (h.buildAll _).bind fun _ => h.completeNode id _

theorem readOutputWith (h : above.Heedless) (p : SocketId) :
    MeshFlow.Heedless (g.readOutputWith above p) := by
  refine (h.buildBlockWith _).bind fun _ =>
    heedless_get (fun _ _ => rfl) fun s => ?_
  split
  · exact heedless_pure _
  · exact heedless_pure _
  · exact h.runProgram _ _

end Supplier.Heedless

end MeshFlow
