import MeshFlow.Proofs.Effort
import MeshFlow.Proofs.Ordered

set_option autoImplicit false

/-!
# Building comes to an end

Calls go up along connections, which never lead back: calls inside calls are for blocks further and
further up, and so are not nested deeper than there are blocks. What a block asks for between two
calls is bounded by what its loops go by.
-/
namespace MeshFlow.Graph
variable {F : Facts} {g : Graph} {s : Session}

theorem InPass.run_within (h : g.InPass s) (lasting : F.Lasting g) (wired : g.Wired)
    (acyclic : g.Acyclic) {α : Type} {owner : BlockId} {program : Program α} {most : Nat}
    (takes : program.Takes (F.answers g owner) most) :
    ∃ a n s', (g.runProgram g.supplier owner (program.counted 0)).run s = some ((a, n), s') ∧
      (g.runProgram g.supplier owner program).run s = some (a, s') ∧ n ≤ most := by
  have runs : g.Runs g.supplier owner (F.answers g owner) (fun _ => True) (·.Sound F g) :=
    (supplier_serves lasting wired acyclic).runs fun _ o _ =>
      Nat.lt_succ_of_le (wired.height_le_size o.block)
  obtain ⟨⟨a, n⟩, s', run, -, k, count, few⟩ :=
    runs.runProgram (program.counted 0) (h.sound lasting wired acyclic)
      (Program.notes_of_all (fun _ => True.intro) _ _) (takes s.contexts 0)
  refine ⟨a, n, s', run, ?_, ?_⟩
  · rw [← Program.runProgram_counted g g.supplier owner program 0, StateT.run_bind, run]
    rfl
  · rw [show n = k from count.trans (Nat.zero_add k)]
    exact few

/-- Every build of a graph over the standard blocks comes to an end. A pass is one in which blocks
call for blocks strictly above them alone, with no more calls underway at once than there are
blocks; every call at any moment of a pass comes to an end; and to build a block, or to read one of
its outputs, takes a number of requests that is fixed by the sizes of what its loops go over. -/
theorem ReachableWith.build_terminates {g : Graph} (h : g.ReachableWith Block.IsStandard) :
    (∀ config, g.build config ≠ .error .circular) ∧
    (∀ id node, g.output = some id → g.node? id = some node → ∀ config, ∃ result,
      (g.resultValue id node).run (.start config) = some result ∧
      (resultFrom (g.strictWithin g.size) id node).run (.start config) = some result) ∧
    (∀ s, g.InPass s → (∀ id, ∃ s', (g.supplier.build id).run s = some ((), s')) ∧
      ∀ p, ∃ v s', (g.supplier.read p).run s = some (v, s')) ∧
    (∀ id n, g.node? id = some n → ∀ A faces vertices count, n.block.Sized A faces vertices count →
      (n.block.plan id n.name).Plans A (12 + 9 * n.block.steps faces vertices count)) ∧
    (∀ F : Facts, F.Lasting g → ∀ s, g.InPass s → ∀ id (program : Program Value) most,
      program.Takes (F.answers g id) most →
      ∃ v n s', (g.runProgram g.supplier id (program.counted 0)).run s = some ((v, n), s') ∧
        (g.runProgram g.supplier id program).run s = some (v, s') ∧ n ≤ most) ∧
    ∀ m : Mesh, m.triangles.length ≤ m.faceCount ∧ m.points.length = m.vertexCount := by
  have order := ReachableWith.inOrder h
  obtain ⟨wired, acyclic, declares⟩ := order
  have lasting := Facts.trivial_lasting g
  refine ⟨fun config circular => ?_, fun id node output hn config => ?_, fun s underway => ?_,
    fun id n hn A faces vertices count sized => ?_,
    fun F lasting s underway id program most takes => ?_, fun m => ?_⟩
  · have error := (wired.build_error_iff acyclic config _).1 circular
    cases error.2
  · have has : g.hasBlock id := by simp [hasBlock, hn]
    have low := wired.height_lt_size acyclic has
    obtain ⟨v, s, strict, -⟩ := InOrder.strict_ends ⟨wired, acyclic, declares⟩ hn low config
    exact ⟨(v, s), g.strictResult_refines (Nat.le_succ _) id node _ _ strict, strict⟩
  · constructor
    · intro id
      obtain ⟨_, s', run, -⟩ := underway.build_ends lasting wired acyclic id
      exact ⟨s', run⟩
    · intro p
      obtain ⟨v, s', run, -⟩ := underway.read_ends lasting wired acyclic p
      exact ⟨v, s', run⟩
  · exact (declares.sort id n hn).plans sized id n.name
  · exact underway.run_within lasting wired acyclic takes
  · exact ⟨m.length_triangles_le, m.length_points⟩

def cloud : Graph :=
  [.add "sphere" (.sphere false), .add "item" (.box true),
    .add "cloud" (.instantiateOnVolume true 100), .add "result" .output,
    .connectUnchecked (.output 0 0) (.input 2 0), .connectUnchecked (.output 1 0) (.input 2 1),
    .connectUnchecked (.output 2 0) (.input 3 0), .setOutput 3].foldl Edit.apply .empty

theorem build_terminates_cloud :
    cloud.build {} ≠ .error .circular ∧
      ∃ n, cloud.node? 2 = some n ∧ ∀ A : Answers, (∀ key v, A.kept key v) →
        (∀ c v, A.input 0 c v → v = .null) → (∀ c v, A.input 2 c v → v = .int 256) →
        (n.block.plan 2 n.name).Plans A (12 + 9 * (256 * 100)) := by
  have reached : cloud.ReachableWith Block.IsStandard := by
    refine ReachableBy.foldl .empty _ ?_
    refine ⟨⟨?_, trivial⟩, ⟨?_, trivial⟩, ⟨?_, trivial⟩, ⟨?_, trivial⟩, ⟨trivial, trivial⟩,
      ⟨trivial, trivial⟩, ⟨trivial, trivial⟩, ⟨trivial, trivial⟩, trivial⟩ <;> decide +kernel
  obtain ⟨ends, -, -, bounded, -⟩ := ReachableWith.build_terminates reached
  refine ⟨ends {}, _, rfl, fun A kept nothing asked => ?_⟩
  refine bounded 2 _ rfl A 0 0 256 ⟨kept, fun _ c v known => ?_, ?_⟩
  · rw [nothing c v known]
    exact Value.holds_null
  · rintro input usual ⟨⟩ c v known
    rw [asked c v known]
    decide

end MeshFlow.Graph
