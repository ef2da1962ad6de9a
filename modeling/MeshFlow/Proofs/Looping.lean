import MeshFlow.Proofs.Placing
import MeshFlow.Proofs.ValidPasses

set_option autoImplicit false

/-!
# Loops over instances

A loop places as many instances as its count says, and none if that is not positive. Every step
pulls anew, so the instance may be another one at every step, or be missing at some; what comes out
is made of those that have been pulled, in their order, and is null if there are none. A loop that
is cut short since its instance is fixed and empty leaves out steps that would have pulled nothing.
-/
namespace MeshFlow
open Program Block

namespace Graph

/-- A loop from one session that comes to a value: the count is read first, then the placements are
made one after the other, each under the contexts of its own number. -/
structure Loops (g : Graph) (id : BlockId) (s : Session) (count : Int32)
    (placements : List Placement) (v : Value) : Prop where
  made : ∃ s₁ s₂ s₃, (g.readInt g.supplier (.input id 1) 1).run s = some (count, s₁) ∧
    (0 < count.toInt →
      ∃ never, (g.runProgram g.supplier id (neverPlaces 0)).run s₁ = some (never, s₂)) ∧
    Steps (g.Places id loopInputs s.contexts) s₂ placements s₃
  steps : placements.map (·.step) = (List.range count.toInt.toNat).map (Execution.atStep id)
  numbered : Placement.Numbered s.contexts placements count.toInt.toNat
  null_iff : v = .null ↔ ∀ p ∈ placements, p.pulled = none
  gathers : (∃ p ∈ placements, p.pulled ≠ none) →
    (∀ m ∈ Placement.instances placements, m.validate = .ok ()) →
    Mesh.totalVertices (Placement.instances placements) < 2 ^ 32 →
    ∃ whole, v = .geometry whole ∧ Mesh.Gathers placements whole

theorem Loops.of_placements {g : Graph} {id : BlockId} {s s₁ s₂ s₃ : Session} {count : Int32}
    {placements : List Placement}
    (counted : (g.readInt g.supplier (.input id 1) 1).run s = some (count, s₁))
    (probed : 0 < count.toInt →
      ∃ never, (g.runProgram g.supplier id (neverPlaces 0)).run s₁ = some (never, s₂))
    (made : Steps (g.Places id loopInputs s.contexts) s₂ placements s₃)
    (steps : placements.map (·.step) = (List.range count.toInt.toNat).map (Execution.atStep id)) :
    g.Loops id s count placements (merged (placements.foldl Placement.onto [])) where
  made := ⟨s₁, s₂, s₃, counted, probed, made⟩
  steps := steps
  numbered := by
    refine Placement.numbered_of_loopIndex ?_
    have numbers := congrArg (List.map Execution.loopIndex) steps
    rw [List.map_map, List.map_map] at numbers
    exact numbers.trans (List.map_id _)
  null_iff := merged_eq_null_iff placements
  gathers some valid few := by
    obtain ⟨whole, made, joined⟩ := merged_of_pulled some
    exact ⟨whole, made, Mesh.gathers_mergeAll valid few joined⟩

variable {g : Graph} {s : Session} {id : BlockId}

theorem InOrder.ends_instantiate (order : g.InOrder) (orderly : s.Orderly g) :
    Ends (g.runProgram g.supplier id (instantiateProgram id)) s fun v _ =>
      ∃ count placements, g.Loops id s count placements v := by
  rw [instantiateProgram, ends_inScope, ends_runProgram_bind]
  refine (order.ends_countInput orderly 1 1).mono ?_
  rintro _ s₁ ⟨on, count, rfl, counted⟩
  split
  · rename_i zero
    have none : count.toInt.toNat = 0 := by simpa using zero
    have negative : ¬ 0 < count.toInt := by omega
    refine (ends_return ..).2 ⟨count, [], ?_⟩
    exact .of_placements counted (fun positive => absurd positive negative) (.nil s₁)
      (by simp [none])
  · rw [ends_runProgram_bind]
    refine (order.ends_program on.orderly id (restores_neverPlaces _)).mono ?_
    rintro never s₂ ⟨on', probed⟩
    cases never with
    | true =>
      obtain ⟨-, nothing⟩ := pulls_nothing probed
      obtain ⟨s₃, made⟩ := steps_nothing nothing s.contexts
        ((List.range count.toInt.toNat).map (Execution.atStep id))
      have loops := Loops.of_placements counted (fun _ => ⟨true, probed⟩) made (by simp)
      rw [(merged_eq_null_iff _).2 (by simp)] at loops
      exact (ends_return ..).2 ⟨count, _, loops⟩
    | false =>
      rw [if_neg Bool.false_ne_true, ends_runProgram_bind, ends_currentContexts,
        on'.contexts.trans on.contexts, ends_runProgram_bind]
      refine (ends_forEach Placement.step (Execution.atStep id)
        (fun copies i t ok =>
          order.ends_placeAt ok loopInputs s.contexts (Execution.atStep id i) copies)
        (List.range count.toInt.toNat) [] on'.orderly).mono ?_
      rintro _ s₃ ⟨-, placements, made, steps, rfl⟩
      exact (ends_joined ..).2 ⟨count, placements,
        .of_placements counted (fun _ => ⟨false, probed⟩) made steps⟩

/-- At any moment of a pass, a block that loops over instances makes one placement for every number
below its count, in order; it yields null just if none of them pulls an instance with positions, and
otherwise, if what is pulled is valid and fits, a valid mesh that is made of the copies one behind
the other and of nothing else. That is what a read of its output yields that is worked out, unless an
input is missing. -/
theorem ReachableWith.loops (h : g.ReachableWith Block.IsStandard) {n : Node} {everyRead : Bool}
    (hn : g.node? id = some n) (hb : n.block = .instantiate everyRead) :
    g.Evaluates id n (instantiateProgram id) fun s v =>
      ∃ count placements, g.Loops id s count placements v := by
  have order := ReachableWith.inOrder h
  exact order.evaluates hn hb (List.cons_ne_nil _ _) rfl fun s underway =>
    order.ends_instantiate (underway.orderly order)

def trio : Graph :=
  [.add "triangle" (.mesh (some flag) false), .add "loop" (.instantiate true),
    .setDefault (.input 1 1) (.int 3), .connectUnchecked (.output 0 0) (.input 1 0)].foldl
    Edit.apply .empty

theorem reachable_trio : trio.ReachableWith Block.IsStandard := by
  refine ReachableBy.foldl .empty _ ?_
  refine ⟨⟨?_, trivial⟩, ⟨?_, trivial⟩, ⟨trivial, trivial⟩, ⟨trivial, trivial⟩, trivial⟩ <;>
    decide +kernel

theorem loops_trio :
    Ends (trio.supplier.read (.output 1 0)) (.start {}) fun v _ =>
      ∃ s placements, trio.Loops 1 s 3 placements v ∧ placements.length = 3 := by
  obtain ⟨n, hn, hb⟩ : ∃ n, trio.node? 1 = some n ∧ n.block = .instantiate true := ⟨_, rfl, rfl⟩
  have evaluates := ReachableWith.loops reachable_trio hn hb
  refine (evaluates.reads (.start {}) (.start {}) (.inl List.not_mem_nil)).mono ?_
  rintro v _ (⟨s, -, -, -, count, placements, loops⟩ | ⟨missing, -⟩)
  · obtain ⟨s₁, -, -, counted, -, -⟩ := loops.made
    cases counted.symm.trans (show _ = some ((3 : Int32), s) from rfl)
    have steps := congrArg List.length loops.steps
    rw [List.length_map, List.length_map, List.length_range] at steps
    exact ⟨s, placements, loops, steps⟩
  · cases hn
    cases missing

end Graph
end MeshFlow
