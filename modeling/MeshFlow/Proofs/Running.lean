import MeshFlow.Build.Evaluation
import MeshFlow.Proofs.Always

set_option autoImplicit false

/-!
# Running programs

A program is run against a session and the blocks above. Where each of its requests keeps a claim
about the session and is answered as the program may count on, so does the run as a whole: it ends,
the claim holds of the session it leaves, and the program comes to what it always comes to.
-/
namespace MeshFlow

/-- Requests of one block are answered, and keep the sessions to those of a sort; so do reports
within `N`. -/
structure Graph.Runs (g : Graph) (above : Supplier) (owner : BlockId) (A : Answers)
    (N : Nat → Prop) (sort : Session → Prop) : Prop where
  read : ∀ i s, sort s → Ends (g.readInput above (.input owner i)) s fun v s' =>
    sort s' ∧ s'.contexts = s.contexts ∧ A.input i s.contexts v
  varying : ∀ i s, sort s → Ends (g.isVarying above (.input owner i)) s fun _ s' =>
    sort s' ∧ s'.contexts = s.contexts
  connected : ∀ i, g.isConnected (.input owner i) = A.connected i
  enter : ∀ contexts s, sort s → sort { s with contexts }
  draw : ∀ generator s, sort s → sort { s with generator }
  record : ∀ d s, d.Within N → sort s → sort (s.record d)
  kept : ∀ key v s, sort s → s.kept[(owner, key)]? = some v → A.kept key v
  keep : ∀ key v s, sort s → A.kept key v →
    sort { s with kept := s.kept.insert (owner, key) v }

theorem Session.contexts_record (s : Session) (d : Diagnostic) :
    (s.record d).contexts = s.contexts := by
  rw [Session.record]
  split <;> rfl

theorem Session.mem_record (s : Session) (d e : Diagnostic) :
    e ∈ (s.record d).diagnostics ↔ e ∈ s.diagnostics ∨ e = d := by
  rw [record]
  split
  · rename_i known
    rw [List.contains_iff_mem] at known
    constructor
    · exact .inl
    · rintro (old | rfl)
      · exact old
      · exact known
  · simp

theorem Session.isLost_record (s : Session) (d : Diagnostic) :
    (s.record d).isLost = (s.isLost || d.isOverflow) := by
  rw [Bool.eq_iff_iff, Bool.or_eq_true, isLost, isLost, List.any_eq_true,
    List.any_eq_true]
  simp only [mem_record]
  constructor
  · rintro ⟨e, old | rfl, lost⟩
    · exact .inl ⟨e, old, lost⟩
    · exact .inr lost
  · rintro (⟨e, old, lost⟩ | lost)
    · exact ⟨e, .inl old, lost⟩
    · exact ⟨d, .inr rfl, lost⟩

namespace Graph.Runs
variable {g : Graph} {above : Supplier} {owner : BlockId} {A : Answers} {N : Nat → Prop}
variable {sort : Session → Prop} {s : Session}

theorem adaptInput (h : g.Runs above owner A N sort) (i : Nat) (kind : Kind) (ok : sort s) :
    Ends (g.adaptInput above (.input owner i) kind) s fun adapted s' =>
      sort s' ∧ s'.contexts = s.contexts ∧ ∃ v, A.input i s.contexts v ∧ adapted = v.coerce? kind := by
  rw [Graph.adaptInput, ends_bind]
  refine (h.read i s ok).mono fun v s' => ?_
  rintro ⟨ok', contexts, answer⟩
  split
  · rename_i adapted eq
    exact (ends_pure ..).2 ⟨ok', contexts, v, answer, eq.symm⟩
  · rename_i eq
    split
    · simp only [ends_bind, ends_modify, ends_pure]
      exact ⟨h.record _ s' True.intro ok', (s'.contexts_record _).trans contexts, v, answer, eq.symm⟩
    · simp only [ends_pure]
      exact ⟨ok', contexts, v, answer, eq.symm⟩

theorem runProgram {α : Type} (h : g.Runs above owner A N sort) {post : α → Contexts → Prop}
    (program : Program α) (ok : sort s) (notes : program.Notes A N s.contexts)
    (always : program.Always A post s.contexts) :
    Ends (g.runProgram above owner program) s fun a s' => sort s' ∧ post a s'.contexts := by
  induction program generalizing s with
  | done a => exact (ends_pure ..).2 ⟨ok, always⟩
  | read i k ih =>
    rw [Graph.runProgram, ends_bind]
    refine (h.read i s ok).mono fun v s' => ?_
    rintro ⟨ok', contexts, answer⟩
    exact ih v ok' (contexts ▸ notes v answer) (contexts ▸ always v answer)
  | adapt i kind k ih =>
    rw [Graph.runProgram, ends_bind]
    refine (h.adaptInput i kind ok).mono fun adapted s' => ?_
    rintro ⟨ok', contexts, v, answer, rfl⟩
    exact ih _ ok' (contexts ▸ notes v answer) (contexts ▸ always v answer)
  | isConnected i k ih =>
    rw [Graph.runProgram, h.connected]
    exact ih _ ok notes always
  | isVarying i k ih =>
    rw [Graph.runProgram, ends_bind]
    refine (h.varying i s ok).mono fun b s' => ?_
    rintro ⟨ok', contexts⟩
    exact ih b ok' (contexts ▸ notes b) (contexts ▸ always b)
  | contexts k ih =>
    simp only [Graph.runProgram, ends_bind, ends_get]
    exact ih _ ok notes always
  | enter c k ih =>
    simp only [Graph.runProgram, ends_bind, ends_modify]
    exact ih (h.enter c s ok) notes always
  | draw k ih =>
    simp only [Graph.runProgram, ends_bind, ends_get, ends_modify]
    exact ih _ (h.draw _ s ok) (notes _) (always _)
  | record d k ih =>
    simp only [Graph.runProgram, ends_bind, ends_modify]
    refine ih (h.record d s notes.1 ok) ?_ ?_ <;> rw [s.contexts_record d]
    · exact notes.2
    · exact always
  | kept key k ih =>
    simp only [Graph.runProgram, ends_bind, ends_get]
    cases hv : s.kept[(owner, key)]? with
    | none => exact ih _ ok notes.1 always.1
    | some v =>
      have known := h.kept key v s ok hv
      exact ih _ ok (notes.2 v known) (always.2 v known)
  | keep key v k ih =>
    simp only [Graph.runProgram, ends_bind, ends_modify]
    exact ih (h.keep key v s ok always.1) notes always.2

end Graph.Runs
end MeshFlow
