import Mathlib.Data.String.Basic
import MeshFlow.Json.Decode
import MeshFlow.Proofs.Entries

set_option autoImplicit false

/-!
# Members of objects

Sorting the members of an object changes no lookup while their keys differ, and the fields of a
record are what its names look up.
-/
namespace MeshFlow.Json

theorem lookup_insertMember (key k : String) (value : Json) (members : List (String × Json)) :
    (insertMember key value members).lookup k
      = if k = key then some value else members.lookup k := by
  rw [insertMember_eq, lookup_insertEntry]

theorem insertMember_sorted {members : List (String × Json)}
    (sorted : members.Pairwise fun a b => a.1 < b.1) (key : String) (value : Json) :
    (insertMember key value members).Pairwise fun a b => a.1 < b.1 := by
  rw [insertMember_eq]
  exact insertEntry_sorted lt_trans
    (fun notBelow different => lt_of_le_of_ne (not_lt.1 notBelow) (Ne.symm different))
    sorted key value

theorem sortMembers_sorted (members : List (String × Json)) :
    (sortMembers members).Pairwise fun a b => a.1 < b.1 := by
  have folded : ∀ sorted : List (String × Json), sorted.Pairwise (fun a b => a.1 < b.1) →
      (members.foldl (fun sorted m => insertMember m.1 m.2 sorted) sorted).Pairwise
        fun a b => a.1 < b.1 := by
    induction members with
    | nil => exact fun _ sorted => sorted
    | cons m rest ih => exact fun _ sorted => ih _ (insertMember_sorted sorted m.1 m.2)
  exact folded [] List.Pairwise.nil

def Distinct (members : List (String × Json)) : Prop := (members.map (·.1)).Nodup

theorem distinct_sortMembers (members : List (String × Json)) : Distinct (sortMembers members) :=
  List.Pairwise.map _ (fun _ _ below => ne_of_lt below) (sortMembers_sorted members)

theorem lookup_eq_none_of_notMem {key : String} {members : List (String × Json)}
    (h : key ∉ members.map (·.1)) : members.lookup key = none :=
  lookup_eq_none fun _ mem same => h (same ▸ List.mem_map_of_mem mem)

theorem lookup_sortMembers {members : List (String × Json)} (distinct : Distinct members)
    (key : String) : (sortMembers members).lookup key = members.lookup key := by
  have folded : ∀ sorted : List (String × Json),
      (members.foldl (fun sorted m => insertMember m.1 m.2 sorted) sorted).lookup key
        = (members.lookup key).or (sorted.lookup key) := by
    induction members with
    | nil => exact fun sorted => rfl
    | cons m rest ih =>
      intro sorted
      obtain ⟨fresh, distinct⟩ := List.nodup_cons.1 distinct
      rw [List.foldl_cons, ih distinct, lookup_insertMember, lookup_cons_ite]
      split
      · rename_i here
        rw [here, lookup_eq_none_of_notMem fresh]
        rfl
      · rfl
  rw [sortMembers, folded]
  exact Option.or_none

theorem filter_key {members : List (String × Json)} (distinct : Distinct members)
    (key : String) :
    members.filter (·.1 == key) = (members.lookup key).toList.map (key, ·) := by
  induction members with
  | nil => rfl
  | cons member rest ih =>
    obtain ⟨key', value⟩ := member
    obtain ⟨fresh, others⟩ := List.nodup_cons.1 distinct
    rw [lookup_cons_ite]
    by_cases here : key = key'
    · subst here
      have gone : rest.filter (·.1 == key) = [] := by
        rw [ih others, lookup_eq_none_of_notMem fresh]
        rfl
      simp [gone]
    · have other : ¬ key' = key := fun same => here same.symm
      simp [here, other, ih others]

theorem fields?_object {members : List (String × Json)} (distinct : Distinct members)
    (names : List String) :
    fields? names (.object members) = some (names.map fun name => members.lookup name) := by
  have mapped : names.mapM (fun name => (pure (members.lookup name) : Option (Option Json)))
      = some (names.map fun name => members.lookup name) := List.mapM_pure
  rw [fields?, ← mapped]
  congr 1
  funext name
  rw [filter_key distinct]
  cases members.lookup name <;> rfl

theorem fields?_congr {members members' : List (String × Json)} {names : List String}
    (same : ∀ name ∈ names, members'.filter (·.1 == name) = members.filter (·.1 == name)) :
    fields? names (.object members') = fields? names (.object members) := by
  rw [fields?, fields?]
  induction names with
  | nil => rfl
  | cons name rest ih =>
    rw [List.mapM_cons, List.mapM_cons, ih fun other mem => same other (List.mem_cons_of_mem _ mem),
      same name (List.mem_cons_self ..)]

theorem get?_congr {members members' : List (String × Json)} {key : String}
    (same : members'.filter (·.1 == key) = members.filter (·.1 == key)) :
    (Json.object members').get? key = (Json.object members).get? key := by
  rw [get?, get?, ← List.head?_filter, ← List.head?_filter, List.filter_reverse,
    List.filter_reverse, same]

theorem get?_object {members : List (String × Json)} (distinct : Distinct members)
    (key : String) : (Json.object members).get? key = members.lookup key := by
  rw [get?]
  rw [← List.head?_filter, List.filter_reverse, filter_key distinct]
  cases members.lookup key <;> rfl

end MeshFlow.Json
