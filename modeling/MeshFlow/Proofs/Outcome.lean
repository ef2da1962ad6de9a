import MeshFlow.Build.Outcome
import MeshFlow.Proofs.Pass

set_option autoImplicit false

/-!
# Outcomes

A build of a wired graph without cycles ends, and its geometry is that of a value of which the
claims hold. In particular a graph that can be reached is only refused for want of an output block.
-/
namespace MeshFlow

theorem Bears.start (F : Facts) (g : Graph) (config : BuildConfig) :
    Bears F g [] (.start config) where
  stored _ _ h := by cases h
  absent _ _ h := by cases h
  suppliers _ h := by cases h
  kept id key v h := by simp [Session.start] at h
  result _ h := by cases h

namespace Graph

def Yields (F : Facts) (g : Graph) (id : BlockId) (node : Node) (v : Value) : Prop :=
  (∃ b, g.UpTo id b ∧ F.result b (some v)) ∨
    F.result id none ∧
      (node.outputs.isEmpty ∧ v = .null ∨
        node.outputs.isEmpty = false ∧ F.output (.output id 0) {} v)

variable {F : Facts} {g : Graph}

theorem ends_resultValue (hold : F.Hold g) (wired : g.Wired) (acyclic : g.Acyclic) {id : BlockId}
    {node : Node} (hn : g.node? id = some node) (config : BuildConfig) :
    Ends (g.resultValue id node) (.start config) fun v _ => g.Yields F id node v := by
  have low : g.height id < g.size + 1 := Nat.lt_succ_of_le (wired.height_le_size id)
  have has : g.hasBlock id := by simp [hasBlock, hn]
  have builds := supplierWithin_builds hold wired acyclic (g.size + 1)
  have reads := supplierWithin_reads F wired acyclic (g.size + 1)
  rw [resultValue, ends_bind]
  refine (builds id [] _ low has (by simp) rfl (.start F g config)).mono fun _ s => ?_
  rintro ⟨bears, contexts, built, grows⟩
  simp only [ends_bind, ends_get]
  cases hr : s.result with
  | some v =>
    refine (ends_pure ..).2 (.inl ?_)
    rcases grows.result with same | ⟨b, w, upTo, fact, eq⟩
    · rw [hr] at same
      cases same
    · rw [hr] at eq
      cases eq
      exact ⟨b, upTo, fact⟩
  | none =>
    have none : F.result id none := by
      rcases bears.result id built (by simp) with fact | some
      · exact fact
      · rw [hr] at some
        cases some
    cases empty : node.outputs.isEmpty with
    | true =>
      simp only [if_true, ends_pure]
      exact .inr ⟨none, .inl ⟨empty, rfl⟩⟩
    | false =>
      simp only [Bool.false_eq_true, if_false]
      refine (reads.read (.output id 0) [] s low bears rfl built (by simp)).mono fun v _ => ?_
      rintro ⟨-, -, fact⟩
      rw [contexts] at fact
      exact .inr ⟨none, .inr ⟨empty, fact⟩⟩

theorem ends_finish (id : BlockId) (node : Node) (v : Value) (s : Session) :
    Ends (finish id node v) s fun geometry s' => geometry = v.mesh? ∧
      ∀ n, .overflow n ∈ s'.diagnostics ↔ .overflow n ∈ s.diagnostics := by
  cases v with
  | null => exact (ends_pure ..).2 ⟨rfl, fun _ => Iff.rfl⟩
  | geometry m =>
    rw [finish]
    split <;> simp only [ends_bind, ends_modify, ends_pure, Value.mesh?, Session.mem_record,
      reduceCtorEq, or_false, implies_true, and_self]
  | _ =>
    simp only [finish, ends_bind, ends_modify, ends_pure, Value.mesh?, Session.mem_record,
      reduceCtorEq, or_false, implies_true, and_self]

theorem build_of_run {id : BlockId} (output : g.output = some id) {node : Node}
    (hn : g.node? id = some node) {config : BuildConfig} {geometry : Option Mesh} {s : Session}
    (run : (do finish id node (← g.resultValue id node)).run (.start config) = some (geometry, s)) :
    g.build config = .ok ⟨geometry, s.diagnostics⟩ := by
  rw [Graph.build, output]
  simp only [(requireNode_eq_ok_iff ..).2 hn, bind, Except.bind] at run ⊢
  rw [run]

theorem build_of_resultValue {id : BlockId} (output : g.output = some id) {node : Node}
    (hn : g.node? id = some node) {config : BuildConfig} {Q : Value → Session → Prop}
    (h : Ends (g.resultValue id node) (.start config) Q) :
    ∃ outcome v s, g.build config = .ok outcome ∧ Q v s ∧ outcome.geometry = v.mesh? ∧
      ∀ n, .overflow n ∈ outcome.diagnostics ↔ .overflow n ∈ s.diagnostics := by
  have pass : Ends (do finish id node (← g.resultValue id node)) (.start config)
      fun geometry t => ∃ v s, Q v s ∧ geometry = v.mesh? ∧
        ∀ n, .overflow n ∈ t.diagnostics ↔ .overflow n ∈ s.diagnostics := by
    rw [ends_bind]
    refine h.mono fun v s holds => ?_
    exact (ends_finish id node v s).mono fun _ _ same => ⟨v, s, holds, same⟩
  obtain ⟨geometry, t, run, v, s, holds, same⟩ := pass
  exact ⟨⟨geometry, t.diagnostics⟩, v, s, build_of_run output hn run, holds, same⟩

theorem build_of_output (hold : F.Hold g) (wired : g.Wired) (acyclic : g.Acyclic) {id : BlockId}
    (output : g.output = some id) {node : Node} (hn : g.node? id = some node)
    (config : BuildConfig) :
    ∃ outcome v, g.build config = .ok outcome ∧ g.Yields F id node v ∧
      outcome.geometry = v.mesh? := by
  obtain ⟨outcome, v, -, built, yields, same, -⟩ :=
    build_of_resultValue output hn (ends_resultValue hold wired acyclic hn config)
  exact ⟨outcome, v, built, yields, same⟩

end Graph

def Facts.trivial : Facts :=
  ⟨fun _ _ _ => True, fun _ _ _ => True, fun _ _ => True, fun _ => True⟩

theorem Facts.trivial_hold (g : Graph) : Facts.trivial.Hold g where
  missing _ _ _ _ := ⟨fun _ _ => True.intro, True.intro⟩
  planned id n _ _ := by
    refine Program.always_of_forall (fun _ _ => True.intro) (fun plan _ => ?_) _ _
    refine ⟨fun entry _ => ?_, fun _ _ _ => True.intro, True.intro⟩
    rcases entry with ⟨index, v | program⟩
    · exact fun _ => True.intro
    · exact fun c => Program.always_of_forall (fun _ _ => True.intro) (fun _ _ => True.intro) _ c

namespace Graph

theorem Wired.build_error_iff {g : Graph} (h : g.Wired) (acyclic : g.Acyclic)
    (config : BuildConfig) (e : GraphError) :
    g.build config = .error e ↔ g.output = none ∧ e = .noOutputBlock := by
  cases output : g.output with
  | none => simp [build, output, eq_comm]
  | some id =>
    obtain ⟨node, hn⟩ := Option.isSome_iff_exists.1 (h.output_exists id output)
    obtain ⟨outcome, -, built, -⟩ :=
      build_of_output (Facts.trivial_hold g) h acyclic output hn config
    simp [built]

theorem Wired.count_eq_one_iff_peer {g : Graph} (h : g.Wired) (o i : SocketId)
    {s : MeshFlow.Socket} (hs : g.socket? i = some s) :
    g.connections.count ⟨o, i⟩ = 1 ↔ s.peer = some o := by
  rw [h.peer_eq i s hs, feederIn_eq_some_iff h.one_feeder, h.one_feeder.nodup.count]
  split <;> simp [*]

theorem Wired.count_eq_one_iff_endpoint {g : Graph} (h : g.Wired) (o i : SocketId)
    {s : MeshFlow.Socket} (hs : g.socket? o = some s) :
    g.connections.count ⟨o, i⟩ = 1 ↔ s.endpoints.count i = 1 := by
  rw [h.endpoints_eq o s hs]
  have mem : i ∈ fedIn g.connections o ↔ ⟨o, i⟩ ∈ g.connections := by
    simp only [fedIn, List.mem_map, List.mem_filter, decide_eq_true_eq]
    constructor
    · rintro ⟨⟨o', i'⟩, ⟨mem, rfl⟩, rfl⟩
      exact mem
    · intro mem
      exact ⟨_, ⟨mem, rfl⟩, rfl⟩
  have nodup : (fedIn g.connections o).Nodup := h.one_feeder.filter _
  rw [nodup.count, h.one_feeder.nodup.count]
  simp only [mem]

/-- Whatever edits have led to a graph, its records of each connection agree, connections lead from
outputs to inputs that are there and to no input twice, and a build of it fails only where no
output block is designated. -/
theorem Reachable.records_agree {g : Graph} (h : g.Reachable) :
    (∀ o i s, i.side = .input → g.socket? i = some s →
      (g.connections.count ⟨o, i⟩ = 1 ↔ s.peer = some o)) ∧
    (∀ o i s, o.side = .output → g.socket? o = some s →
      (g.connections.count ⟨o, i⟩ = 1 ↔ s.endpoints.count i = 1)) ∧
    (∀ o s, o.side = .output → g.socket? o = some s →
      s.endpoints = (g.connections.filter fun c => c.output = o).map fun c => c.input) ∧
    (∀ c ∈ g.connections, c.output.side = .output ∧ c.input.side = .input ∧
      (g.socket? c.output).isSome ∧ (g.socket? c.input).isSome) ∧
    (g.connections.map fun c => c.input).Nodup ∧
    (∀ id, g.output = some id → g.hasBlock id) ∧
    ∀ config e, g.build config = .error e ↔ g.output = none ∧ e = .noOutputBlock := by
  have wired := Reachable.wired h
  refine ⟨?_, ?_, ?_, wired.ends, wired.one_feeder, wired.output_exists, ?_⟩
  · exact fun o i s _ hs => wired.count_eq_one_iff_peer o i hs
  · exact fun o i s _ hs => wired.count_eq_one_iff_endpoint o i hs
  · exact fun o s _ hs => wired.endpoints_eq o s hs
  · exact wired.build_error_iff (Reachable.acyclic h)

theorem records_of_row :
    row.connections.count ⟨.output 0 0, .input 1 0⟩ = 1 ∧
      row.build {} = .error .noOutputBlock := by
  obtain ⟨counted, -, -, -, -, -, errors⟩ := Reachable.records_agree reachable_row
  exact ⟨(counted (.output 0 0) (.input 1 0) _ rfl rfl).2 rfl, (errors {} _).2 ⟨rfl, rfl⟩⟩

end Graph
end MeshFlow
