import MeshFlow.Build.Session

set_option autoImplicit false

/-!
# Reasoning about builds and programs

`Ends` says that a computation on a session ends, and with what; `Always` says what a program comes
to whatever the answers to its requests, as far as is known of them. Both are defined by what has
to hold before, so that they split along `bind`.
-/
namespace MeshFlow

def Ends {α : Type} (b : Build α) (s : Session) (post : α → Session → Prop) : Prop :=
  ∃ a s', b.run s = some (a, s') ∧ post a s'

section
variable {α β : Type} {s : Session}

theorem Ends.mono {b : Build α} {post post' : α → Session → Prop} (h : Ends b s post)
    (le : ∀ a s', post a s' → post' a s') : Ends b s post' := by
  obtain ⟨a, s', run, holds⟩ := h
  exact ⟨a, s', run, le a s' holds⟩

theorem ends_pure (a : α) (post : α → Session → Prop) :
    Ends (pure a : Build α) s post ↔ post a s := by
  constructor
  · rintro ⟨a', s', run, holds⟩
    cases run
    exact holds
  · intro holds
    exact ⟨a, s, rfl, holds⟩

theorem ends_bind (b : Build α) (f : α → Build β) (post : β → Session → Prop) :
    Ends (b >>= f) s post ↔ Ends b s fun a s' => Ends (f a) s' post := by
  simp only [Ends, StateT.run_bind, Option.bind_eq_bind, Option.bind_eq_some_iff, Prod.exists]
  constructor
  · rintro ⟨c, s', ⟨a, s'', first, second⟩, holds⟩
    exact ⟨a, s'', first, c, s', second, holds⟩
  · rintro ⟨a, s'', first, c, s', second, holds⟩
    exact ⟨c, s', ⟨a, s'', first, second⟩, holds⟩

theorem ends_get (post : Session → Session → Prop) :
    Ends (get : Build Session) s post ↔ post s s :=
  ends_pure (s := s) s post

theorem ends_modify (f : Session → Session) (post : PUnit → Session → Prop) :
    Ends (modify f : Build PUnit) s post ↔ post ⟨⟩ (f s) :=
  ends_pure (s := f s) PUnit.unit post

end

/-- What is known of the answers that a program can get. -/
structure Answers where
  /-- The values that an input can yield under given contexts. -/
  input : Nat → Contexts → Value → Prop
  connected : Nat → Bool
  /-- The values that can have been kept under a key. -/
  kept : Int → Value → Prop

/-- A number of vertices that geometry is said to have too many of is of a sort. -/
def Diagnostic.Within (N : Nat → Prop) : Diagnostic → Prop
  | overflow n => N n
  | unconnectedInput .. | missingContextualData _ | invalidGeometry .. | typeMismatch .. => True

theorem Diagnostic.within_of_all {N : Nat → Prop} (d : Diagnostic) (all : ∀ n, N n) : d.Within N := by
  cases d with
  | overflow n => exact all n
  | _ => exact True.intro

namespace Program
variable {α β : Type} {A : Answers} {N : Nat → Prop}

/-- Whatever the answers, the program ends with a result and contexts of a sort. -/
def Always (A : Answers) (post : α → Contexts → Prop) : Program α → Contexts → Prop
  | done a, c => post a c
  | read i k, c => ∀ v, A.input i c v → (k v).Always A post c
  | adapt i kind k, c => ∀ v, A.input i c v → (k (v.coerce? kind)).Always A post c
  | isConnected i k, c => (k (A.connected i)).Always A post c
  | isVarying _ k, c => ∀ b, (k b).Always A post c
  | contexts k, c => (k c).Always A post c
  | enter c k, _ => k.Always A post c
  | draw k, c => ∀ x, (k x).Always A post c
  | record _ k, c => k.Always A post c
  | kept key k, c => (k none).Always A post c ∧ ∀ v, A.kept key v → (k (some v)).Always A post c
  | keep key v k, c => A.kept key v ∧ k.Always A post c

theorem Always.mono {post post' : α → Contexts → Prop} (le : ∀ a c, post a c → post' a c)
    {p : Program α} {c : Contexts} (h : p.Always A post c) : p.Always A post' c := by
  induction p generalizing c with
  | done a => exact le a c h
  | read i k ih | adapt i kind k ih => exact fun v hv => ih _ (h v hv)
  | isConnected i k ih => exact ih _ h
  | isVarying i k ih => exact fun b => ih b (h b)
  | contexts k ih => exact ih c h
  | enter c' k ih => exact ih h
  | draw k ih => exact fun x => ih x (h x)
  | record d k ih => exact ih h
  | kept key k ih => exact ⟨ih _ h.1, fun v hv => ih _ (h.2 v hv)⟩
  | keep key v k ih => exact ⟨h.1, ih h.2⟩

theorem always_bind (p : Program α) (f : α → Program β) (post : β → Contexts → Prop)
    (c : Contexts) :
    (p.bind f).Always A post c ↔ p.Always A (fun a c => (f a).Always A post c) c := by
  induction p generalizing c with
  | done a => rfl
  | read i k ih | adapt i kind k ih => exact forall_congr' fun v => imp_congr_right fun _ => ih _ c
  | isConnected i k ih => exact ih _ c
  | isVarying i k ih => exact forall_congr' fun b => ih b c
  | contexts k ih => exact ih c c
  | enter c' k ih => exact ih c'
  | draw k ih => exact forall_congr' fun x => ih x c
  | record d k ih => exact ih c
  | kept key k ih =>
    exact and_congr (ih _ c) (forall_congr' fun v => imp_congr_right fun _ => ih _ c)
  | keep key v k ih => exact and_congr_right fun _ => ih c

theorem always_inScope (p : Program α) (post : α → Contexts → Prop) (c : Contexts) :
    (inScope p).Always A post c ↔ p.Always A (fun a _ => post a c) c :=
  always_bind p _ post c

theorem always_of_forall (anything : ∀ key v, A.kept key v) {post : α → Contexts → Prop}
    (holds : ∀ a c, post a c) (p : Program α) (c : Contexts) : p.Always A post c := by
  induction p generalizing c with
  | done a => exact holds a c
  | read i k ih | adapt i kind k ih => exact fun v _ => ih _ c
  | isConnected i k ih => exact ih _ c
  | isVarying i k ih => exact fun b => ih b c
  | contexts k ih => exact ih c c
  | enter c' k ih => exact ih c'
  | draw k ih => exact fun x => ih x c
  | record d k ih => exact ih c
  | kept key k ih => exact ⟨ih _ c, fun v _ => ih _ c⟩
  | keep key v k ih => exact ⟨anything key v, ih c⟩

/-- Whatever the answers, everything that the program reports is within `N`. -/
def Notes (A : Answers) (N : Nat → Prop) : Program α → Contexts → Prop
  | done _, _ => True
  | read i k, c => ∀ v, A.input i c v → (k v).Notes A N c
  | adapt i kind k, c => ∀ v, A.input i c v → (k (v.coerce? kind)).Notes A N c
  | isConnected i k, c => (k (A.connected i)).Notes A N c
  | isVarying _ k, c => ∀ b, (k b).Notes A N c
  | contexts k, c => (k c).Notes A N c
  | enter c k, _ => k.Notes A N c
  | draw k, c => ∀ x, (k x).Notes A N c
  | record d k, c => d.Within N ∧ k.Notes A N c
  | kept key k, c => (k none).Notes A N c ∧ ∀ v, A.kept key v → (k (some v)).Notes A N c
  | keep _ _ k, c => k.Notes A N c

theorem notes_of_all (all : ∀ n, N n) (p : Program α) (c : Contexts) : p.Notes A N c := by
  induction p generalizing c with
  | done a => trivial
  | read i k ih | adapt i kind k ih => exact fun v _ => ih _ c
  | isConnected i k ih => exact ih _ c
  | isVarying i k ih => exact fun b => ih b c
  | contexts k ih => exact ih c c
  | enter c' k ih => exact ih c'
  | draw k ih => exact fun x => ih x c
  | record d k ih => exact ⟨d.within_of_all all, ih c⟩
  | kept key k ih => exact ⟨ih _ c, fun v _ => ih _ c⟩
  | keep key v k ih => exact ih c

theorem Notes.bind {p : Program α} {f : α → Program β} {c : Contexts} (h : p.Notes A N c)
    (h' : p.Always A (fun a c => (f a).Notes A N c) c) : (p.bind f).Notes A N c := by
  induction p generalizing c with
  | done a => exact h'
  | read i k ih | adapt i kind k ih => exact fun v known => ih _ (h v known) (h' v known)
  | isConnected i k ih => exact ih _ h h'
  | isVarying i k ih => exact fun b => ih b (h b) (h' b)
  | contexts k ih => exact ih c h h'
  | enter c' k ih => exact ih h h'
  | draw k ih => exact fun x => ih x (h x) (h' x)
  | record d k ih => exact ⟨h.1, ih h.2 h'⟩
  | kept key k ih => exact ⟨ih _ h.1 h'.1, fun v known => ih _ (h.2 v known) (h'.2 v known)⟩
  | keep key v k ih => exact ih h h'.2

end Program
end MeshFlow
