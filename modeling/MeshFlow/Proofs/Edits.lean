import MeshFlow.Proofs.Lookup

set_option autoImplicit false

/-!
# Edits

Everything that changes a graph, as data, so that what a graph can have become is one inductive
predicate. An edit that is refused leaves the graph as it was.
-/
namespace MeshFlow

inductive Edit where
  | add (name : String) (block : Block)
  | insert (id : BlockId) (name : String) (block : Block)
  | remove (id : BlockId)
  | connect (a b : SocketId)
  | connectUnchecked (a b : SocketId)
  | disconnect (a b : SocketId)
  | disconnectAll (p : SocketId)
  | setDefault (p : SocketId) (v : Value)
  | setOutput (id : BlockId)
  | setBlock (id : BlockId) (block : Block)

/-- The graph after an attempt: its result, or the graph as it was. -/
def Graph.orKeep (g : Graph) : Except GraphError Graph → Graph
  | .ok g' => g'
  | .error _ => g

theorem Graph.orKeep_keeps {P : Graph → Prop} {g : Graph} {attempt : Except GraphError Graph}
    (start : P g) (done : ∀ g', attempt = .ok g' → P g') : P (g.orKeep attempt) := by
  cases attempt with
  | error e => exact start
  | ok g' => exact done g' rfl

theorem Graph.getD_keeps {P : Graph → Prop} {g : Graph} {found : Option Graph} (start : P g)
    (done : ∀ g', found = some g' → P g') : P (found.getD g) := by
  cases found with
  | none => exact start
  | some g' => exact done g' rfl

namespace Edit

def apply (g : Graph) : Edit → Graph
  | add name block => g.orKeep ((g.add name block).map Prod.snd)
  | insert id name block => g.orKeep (g.insert id name block)
  | remove id => (g.remove id).2
  | connect a b => g.orKeep (g.connect a b)
  | connectUnchecked a b => g.orKeep (g.connectUnchecked a b)
  | disconnect a b => (g.disconnect? a b).getD g
  | disconnectAll p => (g.disconnectAll p).2
  | setDefault p v => g.orKeep (g.setDefault p v)
  | setOutput id => g.orKeep (g.setOutput id)
  | setBlock id block => g.setBlock id block

def Fits (g : Graph) : Edit → Prop
  | add .. => g.nextId < .last
  | insert id .. => id < .last
  | _ => True

instance (g : Graph) : (e : Edit) → Decidable (e.Fits g)
  | add .. => inferInstanceAs (Decidable (g.nextId < .last))
  | insert id .. => inferInstanceAs (Decidable (id < .last))
  | remove _ | connect .. | connectUnchecked .. | disconnect .. | disconnectAll _ | setDefault ..
  | setOutput _ | setBlock .. => isTrue trivial

def InTurn (allowed : Graph → Edit → Prop) : Graph → List Edit → Prop
  | _, [] => True
  | g, e :: rest => allowed g e ∧ InTurn allowed (e.apply g) rest

variable {allowed : Graph → Edit → Prop}

instance decidableInTurn [decidable : ∀ g e, Decidable (allowed g e)] :
    ∀ (g : Graph) (es : List Edit), Decidable (InTurn allowed g es)
  | _, [] => isTrue trivial
  | g, e :: rest =>
    have := decidableInTurn (e.apply g) rest
    inferInstanceAs (Decidable (allowed g e ∧ InTurn allowed (e.apply g) rest))

theorem InTurn.concat {e : Edit} {es : List Edit} {g : Graph} (inTurn : InTurn allowed g es)
    (last : allowed (es.foldl apply g) e) : InTurn allowed g (es ++ [e]) := by
  induction es generalizing g with
  | nil => exact ⟨last, trivial⟩
  | cons first rest ih => exact ⟨inTurn.1, ih inTurn.2 last⟩

end Edit

namespace Graph

/-- What the empty graph can become by edits of a sort. -/
inductive ReachableBy (allowed : Graph → Edit → Prop) : Graph → Prop where
  | empty : ReachableBy allowed .empty
  | edit {g : Graph} (e : Edit) : ReachableBy allowed g → allowed g e →
    ReachableBy allowed (e.apply g)

abbrev Reachable : Graph → Prop := ReachableBy fun g e => e.Fits g

theorem ReachableBy.mono {allowed allowed' : Graph → Edit → Prop}
    (le : ∀ g e, allowed g e → allowed' g e) {g : Graph} (h : ReachableBy allowed g) :
    ReachableBy allowed' g := by
  induction h with
  | empty => exact .empty
  | edit e _ permitted ih => exact .edit e ih (le _ _ permitted)

theorem ReachableBy.invariant {allowed : Graph → Edit → Prop} {Inv : Graph → Prop}
    (start : Inv .empty)
    (step : ∀ g e, ReachableBy allowed g → allowed g e → Inv g → Inv (e.apply g))
    {g : Graph} (h : ReachableBy allowed g) : Inv g := by
  induction h with
  | empty => exact start
  | edit e reached permitted ih => exact step _ e reached permitted ih

theorem ReachableBy.foldl {allowed : Graph → Edit → Prop} {g : Graph} (h : ReachableBy allowed g)
    (es : List Edit) (inTurn : Edit.InTurn allowed g es) :
    ReachableBy allowed (es.foldl Edit.apply g) := by
  induction es generalizing g with
  | nil => exact h
  | cons e rest ih => exact ih (.edit e h inTurn.1) inTurn.2

theorem ReachableBy.edit_ok {allowed : Graph → Edit → Prop} {g g' : Graph}
    {attempt : Except GraphError Graph} (h : ReachableBy allowed g) (e : Edit)
    (permitted : allowed g e) (tried : e.apply g = g.orKeep attempt) (done : attempt = .ok g') :
    ReachableBy allowed g' := by
  have after := h.edit e permitted
  rwa [tried, done] at after

theorem reachableBy_iff (allowed : Graph → Edit → Prop) (g : Graph) :
    ReachableBy allowed g ↔
      ∃ es, Edit.InTurn allowed .empty es ∧ es.foldl Edit.apply .empty = g := by
  constructor
  · intro h
    induction h with
    | empty => exact ⟨[], trivial, rfl⟩
    | edit e _ permitted ih =>
      obtain ⟨es, inTurn, rfl⟩ := ih
      exact ⟨es ++ [e], inTurn.concat permitted, by simp⟩
  · rintro ⟨es, inTurn, rfl⟩
    exact ReachableBy.foldl .empty es inTurn

end Graph
end MeshFlow
