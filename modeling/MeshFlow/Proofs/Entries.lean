import MeshFlow.Graph.Basic
import MeshFlow.Json.Basic

set_option autoImplicit false

/-!
# Entries sorted by key

Blocks are kept under their numbers and members under their names, by one way of putting an entry
into a sorted list. What is found there afterwards is settled here, once for both.
-/
namespace MeshFlow

section
variable {α β : Type} [DecidableEq α]

theorem lookup_cons_ite (j k : α) (x : β) (rest : List (α × β)) :
    ((j, x) :: rest).lookup k = if k = j then some x else rest.lookup k := by
  rw [List.lookup_cons]
  by_cases same : k = j
  · simp [same]
  · rw [if_neg same, beq_false_of_ne same]

theorem lookup_eq_none {entries : List (α × β)} {k : α} (other : ∀ e ∈ entries, e.1 ≠ k) :
    entries.lookup k = none := by
  rw [List.lookup_eq_none_iff]
  intro e mem
  have := (other e mem).symm
  simpa using this

theorem lookup_filter_ne (entries : List (α × β)) (j k : α) :
    (entries.filter (·.1 ≠ j)).lookup k = if k = j then none else entries.lookup k := by
  induction entries with
  | nil => simp
  | cons e rest ih =>
    obtain ⟨i, x⟩ := e
    rw [lookup_cons_ite]
    by_cases gone : i = j
    · rw [List.filter_cons_of_neg (by simp [gone]), ih]
      by_cases here : k = j
      · simp [here]
      · rw [if_neg here, if_neg here, if_neg fun same => here (same.trans gone)]
    · rw [List.filter_cons_of_pos (by simp [gone]), lookup_cons_ite, ih]
      by_cases here : k = i
      · simp [here, gone]
      · simp [here]

theorem lookup_map_values {γ : Type} (f : β → γ) (entries : List (α × β)) (k : α) :
    (entries.map fun e => (e.1, f e.2)).lookup k = (entries.lookup k).map f := by
  induction entries with
  | nil => rfl
  | cons e rest ih =>
    obtain ⟨j, x⟩ := e
    rw [List.map_cons, lookup_cons_ite, lookup_cons_ite, ih]
    split <;> rfl

theorem mem_of_lookup {entries : List (α × β)} {k : α} {x : β}
    (h : entries.lookup k = some x) : (k, x) ∈ entries := by
  rw [List.lookup_eq_some_iff] at h
  obtain ⟨before, after, rfl, -⟩ := h
  simp

end

section
variable {α β : Type} [DecidableEq α] [LT α] [DecidableLT α]

/-- An entry goes in front of the first one with a larger key, in place of one with its own. -/
def insertEntry (key : α) (x : β) : List (α × β) → List (α × β)
  | [] => [(key, x)]
  | (k, y) :: rest =>
    if key < k then (key, x) :: (k, y) :: rest
    else if key = k then (key, x) :: rest
    else (k, y) :: insertEntry key x rest

theorem lookup_insertEntry (key k : α) (x : β) (entries : List (α × β)) :
    (insertEntry key x entries).lookup k = if k = key then some x else entries.lookup k := by
  induction entries with
  | nil => rw [insertEntry, lookup_cons_ite]
  | cons e rest ih =>
    obtain ⟨j, y⟩ := e
    rw [insertEntry]
    split
    · rw [lookup_cons_ite]
    · split
      · rename_i same
        subst same
        simp only [lookup_cons_ite]
        split <;> rfl
      · rename_i different
        rw [lookup_cons_ite, lookup_cons_ite, ih]
        by_cases here : k = j
        · rw [if_pos here, if_pos here, if_neg fun same => different (same.symm.trans here)]
        · rw [if_neg here, if_neg here]

theorem mem_insertEntry {key : α} {x : β} {entries : List (α × β)} {e : α × β}
    (h : e ∈ insertEntry key x entries) : e.1 = key ∨ e ∈ entries := by
  induction entries with
  | nil => exact .inl (by rw [List.mem_singleton.1 h])
  | cons first rest ih =>
    rw [insertEntry] at h
    split at h
    · exact (List.mem_cons.1 h).imp_left fun same => by rw [same]
    · split at h
      · exact (List.mem_cons.1 h).imp (fun same => by rw [same]) (List.mem_cons_of_mem _)
      · rcases List.mem_cons.1 h with rfl | h
        · exact .inr (List.mem_cons_self ..)
        · exact (ih h).imp_right (List.mem_cons_of_mem _)

theorem insertEntry_sorted (trans : ∀ {a b c : α}, a < b → b < c → a < c)
    (connex : ∀ {a b : α}, ¬ a < b → a ≠ b → b < a) {entries : List (α × β)}
    (sorted : entries.Pairwise fun a b => a.1 < b.1) (key : α) (x : β) :
    (insertEntry key x entries).Pairwise fun a b => a.1 < b.1 := by
  induction sorted with
  | nil => exact List.pairwise_singleton _ _
  | @cons e rest first sorted ih =>
    rw [insertEntry]
    split
    · rename_i below
      refine List.pairwise_cons.2 ⟨?_, List.pairwise_cons.2 ⟨first, sorted⟩⟩
      intro other h
      rcases List.mem_cons.1 h with rfl | h
      · exact below
      · exact trans below (first _ h)
    · rename_i notBelow
      split
      · rename_i same
        exact List.pairwise_cons.2 ⟨fun other h => same ▸ first other h, sorted⟩
      · rename_i different
        refine List.pairwise_cons.2 ⟨fun other h => ?_, ih⟩
        rcases mem_insertEntry h with same | h
        · rw [same]
          exact connex notBelow different
        · exact first other h

end

theorem insertNode_eq (id : BlockId) (n : Node) (nodes : List (BlockId × Node)) :
    Graph.insertNode id n nodes = insertEntry id n nodes := by
  induction nodes with
  | nil => rfl
  | cons e rest ih => rw [Graph.insertNode, insertEntry, ih]

theorem insertMember_eq (key : String) (value : Json) (members : List (String × Json)) :
    Json.insertMember key value members = insertEntry key value members := by
  induction members with
  | nil => rfl
  | cons e rest ih => rw [Json.insertMember, insertEntry, ih]

end MeshFlow
