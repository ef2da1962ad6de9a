import Mathlib.Data.List.Nodup
import Mathlib.Logic.Relation
import MeshFlow.Document.Load
import MeshFlow.Proofs.Acyclic
import MeshFlow.Proofs.Unwired

set_option autoImplicit false

/-!
# Connections by name

Saved connections name their ends by blocks and the names of sockets. What the names stand for is
decided by the blocks alone, so that it is the same before and after other connections are made.
-/
namespace MeshFlow

theorem bind_eq_ok_iff {ε α β : Type} (x : Except ε α) (f : α → Except ε β) (b : β) :
    (x >>= f) = .ok b ↔ ∃ a, x = .ok a ∧ f a = .ok b := by
  cases x <;> simp [bind, Except.bind]

theorem mapError_eq_ok_iff {ε ε' α : Type} (f : ε → ε') (x : Except ε α) (a : α) :
    x.mapError f = .ok a ↔ x = .ok a := by
  cases x <;> simp [Except.mapError]

/-- The block that one of the connections leads from, and the block that it leads to. -/
def Leads (connections : List SavedConnection) (a b : BlockId) : Prop :=
  ∃ c ∈ connections, c.outputBlock = a ∧ c.inputBlock = b

namespace Graph
variable {g g' : Graph}

def Names (g : Graph) (side : Side) (block : BlockId) (name : String) : Prop :=
  ∃ n, g.node? block = some n ∧ ∃ s ∈ n.sockets side, s.spec.name = name

theorem namedSocket_eq_ok_iff (g : Graph) (block : BlockId) (side : Side) (name : String)
    (p : SocketId) : g.namedSocket block side name = .ok p ↔
      ∃ n index, g.node? block = some n ∧ n.find? side name = some index ∧
        p = ⟨block, side, index⟩ := by
  rw [namedSocket, bind_eq_ok_iff]
  constructor
  · rintro ⟨n, hn, found⟩
    rw [requireNode_eq_ok_iff] at hn
    cases hi : n.find? side name with
    | none => simp [hi] at found
    | some index =>
      simp only [hi, Except.ok.injEq] at found
      exact ⟨n, index, hn, hi, found.symm⟩
  · rintro ⟨n, index, hn, hi, rfl⟩
    exact ⟨n, (requireNode_eq_ok_iff ..).2 hn, by simp only [hi]⟩

theorem of_namedSocket {block : BlockId} {side : Side} {name : String} {p : SocketId}
    (h : g.namedSocket block side name = .ok p) :
    p.block = block ∧ p.side = side ∧ ∃ s, g.socket? p = some s ∧ s.spec.name = name := by
  obtain ⟨n, index, hn, hi, rfl⟩ := (namedSocket_eq_ok_iff ..).1 h
  obtain ⟨lt, same, -⟩ := List.findIdx?_eq_some_iff_getElem.1 hi
  refine ⟨rfl, rfl, (n.sockets side)[index], ?_, beq_iff_eq.1 same⟩
  rw [socket?_of_node? (p := ⟨block, side, index⟩) hn]
  exact List.getElem?_eq_getElem lt

theorem names_iff (g : Graph) (side : Side) (block : BlockId) (name : String) :
    g.Names side block name ↔ ∃ p, g.namedSocket block side name = .ok p := by
  simp only [namedSocket_eq_ok_iff]
  constructor
  · rintro ⟨n, hn, s, hs, rfl⟩
    have found : (n.find? side s.spec.name).isSome := by
      rw [Node.find?, List.findIdx?_isSome, List.any_eq_true]
      exact ⟨s, hs, beq_self_eq_true _⟩
    obtain ⟨index, hi⟩ := Option.isSome_iff_exists.1 found
    exact ⟨_, n, index, hn, hi, rfl⟩
  · rintro ⟨p, n, index, hn, hi, -⟩
    obtain ⟨lt, same, -⟩ := List.findIdx?_eq_some_iff_getElem.1 hi
    exact ⟨n, hn, _, List.getElem_mem lt, beq_iff_eq.1 same⟩

theorem biUnique_namedSocket (g : Graph) (side : Side) :
    Relator.BiUnique fun (named : BlockId × String) p =>
      g.namedSocket named.1 side named.2 = .ok p := by
  constructor
  · rintro ⟨block, name⟩ ⟨block', name'⟩ p found found'
    obtain ⟨rfl, -, s, hs, rfl⟩ := of_namedSocket found
    obtain ⟨rfl, -, s', hs', rfl⟩ := of_namedSocket found'
    cases hs.symm.trans hs'
    rfl
  · intro named p q found found'
    exact Except.ok.inj (found.symm.trans found')

/-- The sockets that a saved connection names. -/
structure Resolves (g : Graph) (saved : SavedConnection) (c : Connection) : Prop where
  output : g.namedSocket saved.outputBlock .output saved.outputSocket = .ok c.output
  input : g.namedSocket saved.inputBlock .input saved.inputSocket = .ok c.input

/-- All ends are there, no input occurs twice, and nothing leads in a circle. -/
structure Accepts (g : Graph) (connections : List SavedConnection) : Prop where
  named : ∀ c ∈ connections, g.Names .output c.outputBlock c.outputSocket ∧
    g.Names .input c.inputBlock c.inputSocket
  once : (connections.map fun c => (c.inputBlock, c.inputSocket)).Nodup
  acyclic : ∀ a, ¬ Relation.TransGen (Leads connections) a a

theorem Leads.mono {cs ds : List SavedConnection} (sub : cs ⊆ ds) {a b : BlockId}
    (h : Leads cs a b) : Leads ds a b := by
  obtain ⟨c, hc, ends⟩ := h
  exact ⟨c, sub hc, ends⟩

section
variable {cs ds : List SavedConnection}

theorem Accepts.of_subset (h : g.Accepts ds) (sub : cs ⊆ ds)
    (once : (cs.map fun c => (c.inputBlock, c.inputSocket)).Nodup) : g.Accepts cs where
  named c hc := h.named c (sub hc)
  once := once
  acyclic a cycle := h.acyclic a (Relation.TransGen.mono (fun _ _ => Leads.mono sub) _ _ cycle)

theorem Accepts.of_sublist (h : g.Accepts ds) (le : cs.Sublist ds) : g.Accepts cs :=
  h.of_subset le.subset ((le.map _).nodup h.once)

theorem Accepts.perm (h : g.Accepts ds) (perm : cs.Perm ds) : g.Accepts cs :=
  h.of_subset perm.subset ((perm.map _).nodup_iff.2 h.once)

end

variable {saved : SavedConnection} {c : Connection}

theorem Resolves.blocks (h : g.Resolves saved c) :
    c.output.block = saved.outputBlock ∧ c.input.block = saved.inputBlock :=
  ⟨(of_namedSocket h.output).1, (of_namedSocket h.input).1⟩

theorem resolves_iff_names (g : Graph) (saved : SavedConnection) :
    (∃ c, g.Resolves saved c) ↔ g.Names .output saved.outputBlock saved.outputSocket ∧
      g.Names .input saved.inputBlock saved.inputSocket := by
  rw [names_iff, names_iff]
  constructor
  · rintro ⟨c, output, input⟩
    exact ⟨⟨_, output⟩, _, input⟩
  · rintro ⟨⟨o, output⟩, i, input⟩
    exact ⟨⟨o, i⟩, output, input⟩

theorem Unwires.resolves_iff (h : g.Unwires g') : g'.Resolves saved c ↔ g.Resolves saved c := by
  constructor
  · rintro ⟨output, input⟩
    rw [h.namedSocket_eq] at output input
    exact ⟨output, input⟩
  · rintro ⟨output, input⟩
    rw [← h.namedSocket_eq] at output input
    exact ⟨output, input⟩

theorem rightUnique_resolves (g : Graph) : Relator.RightUnique g.Resolves := by
  rintro saved ⟨o, i⟩ ⟨o', i'⟩ h h'
  cases Except.ok.inj (h.output.symm.trans h'.output)
  cases Except.ok.inj (h.input.symm.trans h'.input)
  rfl

section
variable {saved : List SavedConnection} {made : List Connection}

theorem names_of_resolves (h : List.Forall₂ g.Resolves saved made) :
    ∀ c ∈ saved, g.Names .output c.outputBlock c.outputSocket ∧
      g.Names .input c.inputBlock c.inputSocket := by
  induction h with
  | nil => simp
  | cons resolves _ ih =>
    exact List.forall_mem_cons.2 ⟨(g.resolves_iff_names _).1 ⟨_, resolves⟩, ih⟩

theorem nodup_iff_oneFeeder (h : List.Forall₂ g.Resolves saved made) :
    (saved.map fun c => (c.inputBlock, c.inputSocket)).Nodup ↔ OneFeeder made := by
  refine List.rel_nodup (g.biUnique_namedSocket .input) ?_
  rw [List.forall₂_map_left_iff, List.forall₂_map_right_iff]
  exact h.imp fun _ _ resolves => resolves.input

theorem leads_iff (h : List.Forall₂ g.Resolves saved made) (a b : BlockId) :
    Leads saved a b ↔ ∃ c ∈ made, c.output.block = a ∧ c.input.block = b := by
  induction h with
  | nil => simp [Leads]
  | cons resolves _ ih =>
    obtain ⟨output, input⟩ := resolves.blocks
    simp only [Leads, List.mem_cons, exists_eq_or_imp, output, input]
    exact or_congr_right ih

theorem perm_of_resolves {saved' : List SavedConnection} {made' : List Connection}
    (h : List.Forall₂ g.Resolves saved made) (h' : List.Forall₂ g.Resolves saved' made')
    (perm : saved'.Perm saved) : made'.Perm made :=
  List.rel_perm_imp g.rightUnique_resolves h' h perm

end

end Graph
end MeshFlow
