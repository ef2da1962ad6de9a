import MeshFlow.Proofs.Replay

set_option autoImplicit false

/-!
# The numbers of blocks

A block comes in under any number that is free, or under the next one, which is the one after the
highest that has been given. The last number has none after it, so no block ever gets it: to ask for
it overflows, and so does a block that is added once the count has come to it. Up to there no block
loses its number, whatever graph the edits and the loading have made.
-/
namespace MeshFlow

/-- An edit that does not fit overflows, and nothing comes of it. -/
theorem Edit.apply_of_not_fits {g : Graph} {e : Edit} (h : ¬ e.Fits g) : e.apply g = g := by
  have last_of_not_lt : ∀ id : BlockId, ¬ id < .last → id = .last :=
    fun id above => UInt32.le_antisymm (Graph.le_last id) (UInt32.not_lt.1 above)
  cases e with
  | add name block =>
    rcases Graph.orKeep_cases g ((g.add name block).map Prod.snd) with same | done
    · exact same
    · obtain ⟨other, -⟩ := (Graph.add_eq_ok_iff ..).1 ((Graph.map_add_eq_ok_iff ..).1 done)
      exact absurd (last_of_not_lt _ h) other
  | insert id name block =>
    rcases Graph.orKeep_cases g (g.insert id name block) with same | done
    · exact same
    · obtain ⟨-, other, -⟩ := (Graph.insert_eq_ok_iff ..).1 done
      exact absurd (last_of_not_lt _ h) other
  | _ => exact absurd trivial h

namespace Graph
variable {g g' : Graph}

/-- What can become of the empty graph by edits whatsoever. -/
abbrev Edited : Graph → Prop := ReachableBy fun _ _ => True

theorem Edited.reachable (h : g.Edited) : g.Reachable := by
  refine ReachableBy.invariant .empty (fun g e _ _ reachable => ?_) h
  by_cases fits : e.Fits g
  · exact .edit e reachable fits
  · rwa [Edit.apply_of_not_fits fits]

/-- The graph with a block under a number; all the rest is as it was. -/
structure Puts (g : Graph) (id : BlockId) (n : Node) (g' : Graph) : Prop where
  here : g'.node? id = some n
  others : ∀ k, k ≠ id → g'.node? k = g.node? k
  connections : g'.connections = g.connections
  output : g'.output = g.output

theorem puts_insertNode (g : Graph) (id : BlockId) (n : Node) (nextId : BlockId) :
    g.Puts id n { g with nodes := insertNode id n g.nodes, nextId } where
  here := (lookup_insertNode ..).trans (if_pos rfl)
  others _ other := (lookup_insertNode ..).trans (if_neg other)
  connections := rfl
  output := rfl

theorem puts_insert {id : BlockId} {name : String} {block : Block}
    (done : g.insert id name block = .ok g') : g.Puts id (.ofBlock name block) g' := by
  obtain ⟨-, -, rfl⟩ := (insert_eq_ok_iff ..).1 done
  exact g.puts_insertNode ..

theorem puts_add {id : BlockId} {name : String} {block : Block}
    (done : g.add name block = .ok (id, g')) : g.Puts id (.ofBlock name block) g' := by
  obtain ⟨-, rfl, rfl⟩ := (add_eq_ok_iff ..).1 done
  exact g.puts_insertNode ..

theorem insert_eq_overflow_iff {id : BlockId} (free : g.hasBlock id = false) (name : String)
    (block : Block) : g.insert id name block = .error .overflow ↔ id = .last := by
  by_cases last : id = .last
  · subst last
    simp [insert, free, numberAfter_last, bind, Except.bind]
  · rw [(insert_eq_ok_iff ..).2 ⟨free, last, rfl⟩]
    simp [last]

theorem add_eq_overflow_iff (g : Graph) (name : String) (block : Block) :
    g.add name block = .error .overflow ↔ g.nextId = .last := by
  by_cases last : g.nextId = .last
  · simp [add, last, numberAfter_last, bind, Except.bind]
  · rw [(add_eq_ok_iff ..).2 ⟨last, rfl, rfl⟩]
    simp [last]

theorem nextId_insert_eq_last_iff {id : BlockId} {name : String} {block : Block}
    (done : g.insert id name block = .ok g') :
    g'.nextId = .last ↔ id + 1 = .last ∨ g.nextId = .last := by
  obtain ⟨-, -, rfl⟩ := (insert_eq_ok_iff ..).1 done
  dsimp only
  split
  · rename_i le
    refine ⟨.inl, ?_⟩
    rintro (last | last)
    · exact last
    · exact UInt32.le_antisymm (le_last _) (last ▸ le)
  · rename_i above
    refine (or_iff_right fun last => above ?_).symm
    exact last ▸ le_last _

theorem Edited.loadInput (h : g.Edited) {id : BlockId} {saved : SavedInput}
    (done : g.loadInput id saved = .ok g') : g'.Edited := by
  rw [Graph.loadInput] at done
  split at done
  · rename_i j p _ _
    dsimp only at done
    split at done
    · rename_i v _
      exact h.edit_ok (.setDefault p v) trivial rfl ((mapError_eq_ok_iff ..).1 done)
    · cases done
  · cases done
    exact h

theorem Edited.loadBlock (h : g.Edited) {r : Registry} {saved : SavedBlock}
    (done : g.loadBlock r saved = .ok g') : g'.Edited := by
  rw [Graph.loadBlock, bind_eq_ok_iff] at done
  obtain ⟨block, -, done⟩ := done
  rw [bind_eq_ok_iff] at done
  obtain ⟨with_, inserted, done⟩ := done
  have start : with_.Edited :=
    h.edit_ok (.insert saved.id saved.name block) trivial rfl ((mapError_eq_ok_iff ..).1 inserted)
  exact foldlM_tracks (fun _ g => Graph.Edited g)
    (fun _ _ _ _ edited done => edited.loadInput done) start done

theorem Edited.loadConnection (h : g.Edited) {saved : SavedConnection}
    (done : g.loadConnection saved = .ok g') : g'.Edited := by
  rw [Graph.loadConnection, bind_eq_ok_iff] at done
  obtain ⟨o, -, done⟩ := done
  rw [bind_eq_ok_iff] at done
  obtain ⟨i, -, done⟩ := done
  exact h.edit_ok (.connectUnchecked o i) trivial rfl done

/-- What is loaded might have come of edits, whatever numbers are saved. -/
theorem Edited.of_load {r : Registry} {saved : SavedGraph} (done : load r saved = .ok g) :
    g.Edited := by
  rw [load, bind_eq_ok_iff] at done
  obtain ⟨blocks, made, done⟩ := done
  rw [bind_eq_ok_iff] at done
  obtain ⟨connected, linked, done⟩ := done
  have first : blocks.Edited := foldlM_tracks (fun _ g => Graph.Edited g)
    (fun _ _ _ _ edited done => edited.loadBlock done) .empty made
  have second : connected.Edited := foldlM_tracks (fun _ g => Graph.Edited g)
    (fun _ _ _ _ edited done => edited.loadConnection done) first
    ((mapError_eq_ok_iff ..).1 linked)
  split at done
  · rename_i id _
    exact second.edit_ok (.setOutput id) trivial rfl ((mapError_eq_ok_iff ..).1 done)
  · cases done
    exact second

theorem Edited.hasBlock_nextId (h : g.Edited) : g.hasBlock g.nextId = false := by
  rw [← Bool.not_eq_true]
  intro taken
  exact UInt32.lt_irrefl _ ((Reachable.wired h.reachable).id_lt _ taken)

/-- In every graph that can come of edits and of loading, to insert a block under a number that is
free overflows just if that is the last one; otherwise the block comes in, and all else is as it
was. To add a block then overflows just if the count has come to the last number, by the block that
was inserted or before it; otherwise the block that is added comes in under a number that no block
has, and again all else is as it was. -/
theorem Edited.fresh_after_insert_iff (h : g.Edited) {id : BlockId}
    (free : g.hasBlock id = false) (name : String) (block : Block) :
    (g.insert id name block = .error .overflow ↔ id = .last) ∧
      (id ≠ .last → ∃ g', g.insert id name block = .ok g' ∧
        g.Puts id (.ofBlock name block) g' ∧ g'.Edited ∧ ∀ name' block',
          (g'.add name' block' = .error .overflow ↔ id + 1 = .last ∨ g.nextId = .last) ∧
          (¬ (id + 1 = .last ∨ g.nextId = .last) → ∃ k g'', g'.add name' block' = .ok (k, g'') ∧
            g'.hasBlock k = false ∧ g'.Puts k (.ofBlock name' block') g'' ∧ g''.Edited)) := by
  refine ⟨insert_eq_overflow_iff free name block, fun other => ?_⟩
  obtain ⟨g', done⟩ : ∃ g', g.insert id name block = .ok g' :=
    ⟨_, (insert_eq_ok_iff ..).2 ⟨free, other, rfl⟩⟩
  have edited : g'.Edited := h.edit_ok (.insert id name block) trivial rfl done
  have counted := nextId_insert_eq_last_iff done
  refine ⟨g', done, puts_insert done, edited, fun name' block' =>
    ⟨(add_eq_overflow_iff ..).trans counted, fun room => ?_⟩⟩
  obtain ⟨g'', added⟩ : ∃ g'', g'.add name' block' = .ok (g'.nextId, g'') :=
    ⟨_, (add_eq_ok_iff ..).2 ⟨fun last => room (counted.1 last), rfl, rfl⟩⟩
  exact ⟨g'.nextId, g'', added, edited.hasBlock_nextId, puts_add added,
    edited.edit_ok (.add name' block') trivial rfl ((map_add_eq_ok_iff ..).2 added)⟩

def brimful : SavedGraph := { blocks := [{ className := "BoxBlock", id := 4294967294 }] }

/-- Nothing comes in under the last number, nor after the box; a sphere still comes in before it. -/
theorem overflows_brimful : ∃ g g', load .standard brimful = .ok g ∧
    g.insert .last "ball" (.sphere false) = .error .overflow ∧
    g.insert 7 "ball" (.sphere false) = .ok g' ∧
    g'.node? 7 = some (.ofBlock "ball" (.sphere false)) ∧
    g'.add "floor" (.plane false) = .error .overflow := by
  have known : (load .standard brimful).map
      (fun g => (g.nextId, g.hasBlock .last, g.hasBlock 7)) = .ok (.last, false, false) := rfl
  cases loaded : load .standard brimful with
  | error e =>
    rw [loaded] at known
    cases known
  | ok g =>
    rw [loaded] at known
    obtain ⟨next, free, free'⟩ : g.nextId = .last ∧ g.hasBlock .last = false ∧
        g.hasBlock 7 = false := by
      simpa [Except.map] using known
    have edited := Edited.of_load loaded
    obtain ⟨-, fits⟩ := edited.fresh_after_insert_iff free' "ball" (.sphere false)
    obtain ⟨g', done, puts, -, added⟩ := fits (by decide)
    exact ⟨g, g', rfl, (Edited.fresh_after_insert_iff edited free _ _).1.2 rfl, done, puts.here,
      (added "floor" (.plane false)).1.2 (.inr next)⟩

end Graph
end MeshFlow
