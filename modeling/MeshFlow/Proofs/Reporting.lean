import MeshFlow.Proofs.Finding
import MeshFlow.Proofs.Ordered
import MeshFlow.Proofs.Unwired

set_option autoImplicit false

/-!
# What a pass reports

A pass goes on past blocks that cannot be built, and comes to what feeds several blocks along several
paths. Yet it reports each input that has to be connected and is not exactly once, if the block is
the output block or above it, and no others: a block is visited once, its missing inputs are
reported before the visit ends, and no program reports any.
-/
namespace MeshFlow

/-- If the computation ends, it ends so. -/
def IfEnds {α : Type} (b : Build α) (s : Session) (post : α → Session → Prop) : Prop :=
  ∀ a s', b.run s = some (a, s') → post a s'

section
variable {α β : Type} {s : Session}

theorem IfEnds.mono {b : Build α} {post post' : α → Session → Prop} (h : IfEnds b s post)
    (le : ∀ a s', post a s' → post' a s') : IfEnds b s post' :=
  fun a s' run => le a s' (h a s' run)

theorem ifEnds_pure (a : α) (post : α → Session → Prop) :
    IfEnds (pure a : Build α) s post ↔ post a s := by
  constructor
  · exact fun h => h a s rfl
  · rintro holds _ _ ⟨⟩
    exact holds

theorem ifEnds_bind (b : Build α) (f : α → Build β) (post : β → Session → Prop) :
    IfEnds (b >>= f) s post ↔ IfEnds b s fun a s' => IfEnds (f a) s' post := by
  simp only [IfEnds, StateT.run_bind, Option.bind_eq_bind, Option.bind_eq_some_iff, Prod.exists]
  constructor
  · exact fun h a s' first c s'' second => h c s'' ⟨a, s', first, second⟩
  · rintro h c s'' ⟨a, s', first, second⟩
    exact h a s' first c s'' second

theorem ifEnds_get (post : Session → Session → Prop) :
    IfEnds (get : Build Session) s post ↔ post s s :=
  ifEnds_pure (s := s) s post

theorem ifEnds_modify (f : Session → Session) (post : PUnit → Session → Prop) :
    IfEnds (modify f : Build PUnit) s post ↔ post ⟨⟩ (f s) :=
  ifEnds_pure (s := f s) PUnit.unit post

theorem Ends.and_ifEnds {b : Build α} {post post' : α → Session → Prop} (h : Ends b s post)
    (h' : IfEnds b s post') : Ends b s fun a s' => post a s' ∧ post' a s' := by
  obtain ⟨a, s', run, holds⟩ := h
  exact ⟨a, s', run, holds, h' a s' run⟩

theorem ifEnds_failure (post : α → Session → Prop) : IfEnds (failure : Build α) s post :=
  fun _ _ run => nomatch run

end

namespace Session

theorem nodup_record {s : Session} (h : s.diagnostics.Nodup) (d : Diagnostic) :
    (s.record d).diagnostics.Nodup := by
  rw [record]
  split
  · exact h
  · rename_i new
    rw [List.contains_iff_mem] at new
    exact List.nodup_append.2 ⟨h, List.nodup_singleton d, fun a ha b hb same =>
      new (List.mem_singleton.1 hb ▸ same ▸ ha)⟩

theorem nodup_foldl_record {ι : Type} (d : ι → Diagnostic) (entries : List ι) {s : Session}
    (h : s.diagnostics.Nodup) :
    (entries.foldl (fun s a => s.record (d a)) s).diagnostics.Nodup := by
  induction entries generalizing s with
  | nil => exact h
  | cons a rest ih => exact ih (nodup_record h (d a))

end Session

def Stored.OnlyFinds : Stored → Prop
  | .value _ => True
  | .deferred _ program => program.OnlyFinds

theorem Supply.OnlyFinds.stored {supply : Supply} (h : supply.OnlyFinds) (owner : BlockId) :
    (supply.stored owner).OnlyFinds := by
  cases supply with
  | value v => exact True.intro
  | onRead program => exact h

/-- All stored programs report only what programs find. -/
def Session.OnlyFinds (s : Session) : Prop := ∀ p x, s.stored.lookup p = some x → x.OnlyFinds

namespace Graph
variable {g : Graph} {s s' s'' : Session}

/-- The report of an input of the block that has to be connected and is not. -/
def Misses (g : Graph) (id : BlockId) (d : Diagnostic) : Prop :=
  ∃ n, g.node? id = some n ∧ ∃ p ∈ n.missingInputs, d = .unconnectedInput id n.name p.spec.name

/-- A pass has gone on from one session to another: what has been visited since is reported to be
missing what it misses, and nothing else is. -/
structure Reports (g : Graph) (s s' : Session) : Prop where
  finds : s'.OnlyFinds
  nodup : s.diagnostics.Nodup → s'.diagnostics.Nodup
  built : ∀ b ∈ s.built, b ∈ s'.built
  kept : ∀ d ∈ s.diagnostics, d ∈ s'.diagnostics
  only : ∀ d ∈ s'.diagnostics, d ∈ s.diagnostics ∨ d.IsFound ∨ ∃ b ∈ s'.built, g.Misses b d
  all : ∀ b ∈ s'.built, b ∈ s.built ∨ ∀ d, g.Misses b d → d ∈ s'.diagnostics

namespace Reports

theorem of_same (finds : s'.OnlyFinds) (built : s'.built = s.built)
    (diagnostics : s'.diagnostics = s.diagnostics) : g.Reports s s' where
  finds := finds
  nodup h := by rwa [diagnostics]
  built b hb := by rwa [built]
  kept d hd := by rwa [diagnostics]
  only d hd := .inl (by rwa [← diagnostics])
  all b hb := .inl (by rwa [← built])

theorem refl (finds : s.OnlyFinds) : g.Reports s s := of_same finds rfl rfl

theorem trans (h : g.Reports s s') (h' : g.Reports s' s'') : g.Reports s s'' where
  finds := h'.finds
  nodup distinct := h'.nodup (h.nodup distinct)
  built b hb := h'.built b (h.built b hb)
  kept d hd := h'.kept d (h.kept d hd)
  only d hd := by
    rcases h'.only d hd with early | late
    · rcases h.only d early with old | found | ⟨b, hb, misses⟩
      · exact .inl old
      · exact .inr (.inl found)
      · exact .inr (.inr ⟨b, h'.built b hb, misses⟩)
    · exact .inr late
  all b hb := by
    rcases h'.all b hb with early | late
    · exact (h.all b early).imp_right fun reported d misses => h'.kept d (reported d misses)
    · exact .inr late

theorem record (finds : s.OnlyFinds) {d : Diagnostic} (found : d.IsFound) :
    g.Reports s (s.record d) where
  finds := by
    intro p x hx
    rw [(s.unbuilt_record d).stored] at hx
    exact finds p x hx
  nodup distinct := Session.nodup_record distinct d
  built b hb := by rwa [(s.unbuilt_record d).built]
  kept e he := (s.mem_record d e).2 (.inl he)
  only e he := by
    rcases (s.mem_record d e).1 he with old | rfl
    · exact .inl old
    · exact .inr (.inl found)
  all b hb := .inl (by rwa [← (s.unbuilt_record d).built])

theorem then_ifEnds {α : Type} {b : Build α} {P : α → Prop} (h : g.Reports s s')
    (next : IfEnds b s' fun a s'' => g.Reports s' s'' ∧ P a) :
    IfEnds b s' fun a s'' => g.Reports s s'' ∧ P a :=
  next.mono fun _ _ ⟨reports, result⟩ => ⟨h.trans reports, result⟩

end Reports
end Graph

/-- Whatever is called for reports what it visits to be missing what it misses. -/
structure Supplier.Reports (g : Graph) (above : Supplier) : Prop where
  build : ∀ id s, s.OnlyFinds → IfEnds (above.build id) s fun _ s' => g.Reports s s'
  read : ∀ p s, s.OnlyFinds → IfEnds (above.read p) s fun _ s' => g.Reports s s'

namespace Supplier.Reports
variable {g : Graph} {above : Supplier} {s : Session}

theorem readInput (h : above.Reports g) (p : SocketId) (finds : s.OnlyFinds) :
    IfEnds (g.readInput above p) s fun _ s' => g.Reports s s' := by
  rw [Graph.readInput]
  split
  · exact (ifEnds_pure ..).2 (.refl finds)
  · split
    · exact h.read _ s finds
    · exact (ifEnds_pure ..).2 (.refl finds)

theorem adaptInput (h : above.Reports g) (p : SocketId) (kind : Kind) (finds : s.OnlyFinds) :
    IfEnds (g.adaptInput above p kind) s fun _ s' => g.Reports s s' := by
  rw [Graph.adaptInput, ifEnds_bind]
  refine (h.readInput p finds).mono fun v s' reports => ?_
  split
  · exact (ifEnds_pure ..).2 reports
  · split
    · simp only [ifEnds_bind, ifEnds_modify, ifEnds_pure]
      exact reports.trans (.record reports.finds True.intro)
    · exact (ifEnds_pure ..).2 reports

theorem isVarying (h : above.Reports g) (p : SocketId) (finds : s.OnlyFinds) :
    IfEnds (g.isVarying above p) s fun _ s' => g.Reports s s' := by
  rw [Graph.isVarying]
  split
  · exact (ifEnds_pure ..).2 (.refl finds)
  · simp only [ifEnds_bind, ifEnds_get, ifEnds_pure]
    exact h.build _ s finds

theorem runProgram {α : Type} (h : above.Reports g) (owner : BlockId) {P : α → Prop}
    {program : Program α} (only : program.Finds P) (finds : s.OnlyFinds) :
    IfEnds (g.runProgram above owner program) s fun a s' => g.Reports s s' ∧ P a := by
  induction program generalizing s with
  | done a => exact (ifEnds_pure ..).2 ⟨.refl finds, only⟩
  | read i k ih =>
    rw [Graph.runProgram, ifEnds_bind]
    exact (h.readInput _ finds).mono fun v s' reports =>
      reports.then_ifEnds (ih v (only v) reports.finds)
  | adapt i kind k ih =>
    rw [Graph.runProgram, ifEnds_bind]
    exact (h.adaptInput _ kind finds).mono fun v? s' reports =>
      reports.then_ifEnds (ih v? (only v?) reports.finds)
  | isConnected i k ih => exact ih _ (only _) finds
  | isVarying i k ih =>
    rw [Graph.runProgram, ifEnds_bind]
    exact (h.isVarying _ finds).mono fun b s' reports =>
      reports.then_ifEnds (ih b (only b) reports.finds)
  | contexts k ih =>
    simp only [Graph.runProgram, ifEnds_bind, ifEnds_get]
    exact ih _ (only _) finds
  | enter c k ih =>
    simp only [Graph.runProgram, ifEnds_bind, ifEnds_modify]
    have entered : g.Reports s { s with contexts := c } := .of_same finds rfl rfl
    exact entered.then_ifEnds (ih only entered.finds)
  | draw k ih =>
    simp only [Graph.runProgram, ifEnds_bind, ifEnds_get, ifEnds_modify]
    have drawn : g.Reports s { s with generator := s.generator.unit.2 } := .of_same finds rfl rfl
    exact drawn.then_ifEnds (ih _ (only _) drawn.finds)
  | record d k ih =>
    simp only [Graph.runProgram, ifEnds_bind, ifEnds_modify]
    have noted : g.Reports s (s.record d) := .record finds only.1
    exact noted.then_ifEnds (ih only.2 noted.finds)
  | kept key k ih =>
    simp only [Graph.runProgram, ifEnds_bind, ifEnds_get]
    exact ih _ (only _) finds
  | keep key v k ih =>
    simp only [Graph.runProgram, ifEnds_bind, ifEnds_modify]
    have kept : g.Reports s { s with kept := s.kept.insert (owner, key) v } :=
      .of_same finds rfl rfl
    exact kept.then_ifEnds (ih only kept.finds)

theorem buildAll (h : above.Reports g) (outputs : List SocketId) (finds : s.OnlyFinds) :
    IfEnds (Graph.buildAll above outputs) s fun _ s' => g.Reports s s' := by
  induction outputs generalizing s with
  | nil => exact (ifEnds_pure ..).2 (.refl finds)
  | cons o rest ih =>
    rw [Graph.buildAll, ifEnds_bind]
    refine (h.build _ s finds).mono fun _ s' reports => ?_
    exact (ih reports.finds).mono fun _ _ reports' => reports.trans reports'

theorem buildNode (h : above.Reports g) {id : BlockId} {node : Node} (hn : g.node? id = some node)
    (standard : node.block.IsStandard) (visited : id ∈ s.built) (finds : s.OnlyFinds) :
    IfEnds (g.buildNode above id node) s fun _ s' =>
      g.Reports s s' ∧ ∀ d, g.Misses id d → d ∈ s'.diagnostics := by
  rw [Graph.buildNode, ifEnds_bind]
  refine (h.buildAll _ finds).mono fun _ t reports => ?_
  split
  · rename_i complete
    rw [keepingContexts]
    simp only [ifEnds_bind, ifEnds_get, ifEnds_modify, ifEnds_pure]
    refine (h.runProgram id (standard.finds_plan id node.name) reports.finds).mono ?_
    rintro plan t' ⟨reports', only⟩
    rw [Session.follow_eq]
    have stored : g.Reports t' { t'.storing id plan.outputs with
        contexts := t.contexts, result := plan.result <|> t'.result } := by
      refine .of_same (fun p x hx => ?_) rfl rfl
      rcases Session.lookup_storing hx with ⟨e, he, rfl, rfl⟩ | old
      · exact (only e he).stored id
      · exact reports'.finds p x old
    refine ⟨(reports.trans reports').trans stored, ?_⟩
    rintro d ⟨n, hn', p, hp, rfl⟩
    cases hn.symm.trans hn'
    rw [List.isEmpty_iff.1 complete] at hp
    cases hp
  · rw [ifEnds_modify, Session.storeNulls_eq]
    have mem := Session.mem_foldl_record (fun p => .unconnectedInput id node.name p.spec.name)
      node.missingInputs t
    obtain ⟨unbuilt, -, -⟩ :=
      Session.foldl_record (fun p => .unconnectedInput id node.name p.spec.name) node.missingInputs t
    have reported : ∀ d, g.Misses id d →
        ∃ p ∈ node.missingInputs, d = .unconnectedInput id node.name p.spec.name := by
      rintro d ⟨n, hn', missing⟩
      cases hn.symm.trans hn'
      exact missing
    refine ⟨reports.trans ⟨fun p x hx => ?_, fun distinct => Session.nodup_foldl_record _ _ distinct,
      fun b hb => ?_, fun d hd => (mem d).2 (.inl hd), fun d hd => ?_, fun b hb => .inl ?_⟩,
      fun d misses => (mem d).2 (.inr (reported d misses))⟩
    · rcases Session.lookup_storing hx with ⟨e, he, rfl, rfl⟩ | old
      · obtain ⟨index, -, rfl⟩ := List.mem_map.1 he
        exact True.intro
      · exact reports.finds p x (unbuilt.stored ▸ old)
    · exact unbuilt.built ▸ hb
    · refine ((mem d).1 hd).imp_right fun missing => .inr ⟨id, ?_, node, hn, missing⟩
      exact unbuilt.built ▸ reports.built id visited
    · exact unbuilt.built ▸ hb

theorem buildBlockWith (h : above.Reports g) (declares : g.Declares Block.IsStandard) (id : BlockId)
    (finds : s.OnlyFinds) :
    IfEnds (g.buildBlockWith above id) s fun _ s' => g.Reports s s' := by
  simp only [Graph.buildBlockWith, ifEnds_bind, ifEnds_get]
  split
  · exact (ifEnds_pure ..).2 (.refl finds)
  · rw [ifEnds_bind, ifEnds_modify]
    let noted : Session := { s with built := id :: s.built }
    -- From the visit on only the block itself has not been reported.
    have visit : ∀ s', g.Reports noted s' → (∀ d, g.Misses id d → d ∈ s'.diagnostics) →
        g.Reports s s' := by
      refine fun s' reports own => ⟨reports.finds, reports.nodup, fun b hb => ?_, reports.kept,
        reports.only, fun b hb => ?_⟩
      · exact reports.built b (List.mem_cons_of_mem _ hb)
      · rcases reports.all b hb with early | late
        · rcases List.mem_cons.1 early with rfl | old
          · exact .inr own
          · exact .inl old
        · exact .inr late
    split
    · rename_i missing
      refine (ifEnds_pure ..).2 (visit noted (.refl finds) ?_)
      rintro d ⟨n, hn, -⟩
      rw [missing] at hn
      cases hn
    · rename_i node hn
      exact (h.buildNode hn (declares.sort id node hn) (s := noted) (List.mem_cons_self ..)
        finds).mono fun _ s' both => visit s' both.1 both.2

theorem readOutputWith (h : above.Reports g) (declares : g.Declares Block.IsStandard) (p : SocketId)
    (finds : s.OnlyFinds) :
    IfEnds (g.readOutputWith above p) s fun _ s' => g.Reports s s' := by
  rw [Graph.readOutputWith, ifEnds_bind]
  refine (h.buildBlockWith declares _ finds).mono fun _ s' reports => ?_
  simp only [ifEnds_bind, ifEnds_get]
  cases hx : s'.stored.lookup p with
  | none => exact (ifEnds_pure ..).2 reports
  | some x =>
    have found := reports.finds p x hx
    cases x with
    | value v => exact (ifEnds_pure ..).2 reports
    | deferred owner program =>
      exact (h.runProgram owner found reports.finds).mono fun _ _ both => reports.trans both.1

end Supplier.Reports

namespace Graph
variable {g : Graph}

theorem supplierWithin_reports (declares : g.Declares Block.IsStandard) (depth : Nat) :
    (g.supplierWithin depth).Reports g := by
  induction depth with
  | zero => exact ⟨fun _ _ _ => ifEnds_failure _, fun _ _ _ => ifEnds_failure _⟩
  | succ depth ih =>
    exact ⟨fun id _ finds => ih.buildBlockWith declares id finds,
      fun p _ finds => ih.readOutputWith declares p finds⟩

theorem resultValue_reports (declares : g.Declares Block.IsStandard) (id : BlockId) (node : Node)
    {s : Session} (finds : s.OnlyFinds) :
    IfEnds (g.resultValue id node) s fun _ s' => g.Reports s s' := by
  have reports := supplierWithin_reports declares (g.size + 1)
  rw [resultValue, ifEnds_bind]
  refine (reports.build id s finds).mono fun _ s' built => ?_
  simp only [ifEnds_bind, ifEnds_get]
  split
  · exact (ifEnds_pure ..).2 built
  · split
    · exact (ifEnds_pure ..).2 built
    · exact (reports.read _ s' built.finds).mono fun _ _ read => built.trans read

theorem finish_reports (g : Graph) (id : BlockId) (node : Node) (v : Value) {s : Session}
    (finds : s.OnlyFinds) : IfEnds (finish id node v) s fun _ s' =>
      g.Reports s s' ∧ s'.built = s.built := by
  have noted : ∀ d : Diagnostic, d.IsFound →
      g.Reports s (s.record d) ∧ (s.record d).built = s.built :=
    fun d found => ⟨.record finds found, (s.unbuilt_record d).built⟩
  cases v with
  | null => exact (ifEnds_pure ..).2 ⟨.refl finds, rfl⟩
  | geometry m =>
    rw [finish]
    split
    · exact (ifEnds_pure ..).2 ⟨.refl finds, rfl⟩
    · simp only [ifEnds_bind, ifEnds_modify, ifEnds_pure]
      exact noted _ True.intro
  | _ =>
    simp only [finish, ifEnds_bind, ifEnds_modify, ifEnds_pure]
    exact noted _ True.intro

theorem InOrder.pass_reports (order : g.InOrder) {id : BlockId} {node : Node}
    (hn : g.node? id = some node) (config : BuildConfig) :
    Ends (do finish id node (← g.resultValue id node)) (.start config) fun _ s =>
      g.Reports (.start config) s ∧ ∀ b, b ∈ s.built ↔ g.UpTo id b := by
  have has : g.hasBlock id := by simp [hasBlock, hn]
  have low := order.wired.height_lt_size order.acyclic has
  obtain ⟨v, s, strict, -, upTo, -⟩ := order.strict_ends hn low config
  have visits : Ends (g.resultValue id node) (.start config) fun _ s => ∀ b, b ∈ s.built ↔ g.UpTo id b :=
    ⟨v, s, g.strictResult_refines (Nat.le_succ _) id node _ _ strict, upTo⟩
  have none : (Session.start config).OnlyFinds := by
    intro p x hx
    cases hx
  rw [ends_bind]
  refine (visits.and_ifEnds (resultValue_reports order.declares id node none)).mono ?_
  rintro v s ⟨upTo, reports⟩
  refine ((ends_finish id node v s).and_ifEnds (finish_reports g id node v reports.finds)).mono ?_
  rintro _ s' ⟨-, reports', built⟩
  exact ⟨reports.trans reports', fun b => by rw [built, upTo]⟩

/-- A build reports nothing twice. It reports an input to be unconnected just if the input belongs to
the output block or one above it, has to be connected, and is not; and what it reports to be
unconnected is always an input. -/
theorem ReachableWith.reports_missing (h : g.ReachableWith Block.IsStandard) {id : BlockId}
    (output : g.output = some id) (config : BuildConfig) :
    ∃ outcome, g.build config = .ok outcome ∧ outcome.diagnostics.Nodup ∧
      (∀ b n, g.node? b = some n → ∀ s ∈ n.inputs,
        (.unconnectedInput b n.name s.spec.name ∈ outcome.diagnostics ↔
          g.UpTo id b ∧ s.spec.isOptional = false ∧ s.peer = none)) ∧
      ∀ b name socket, .unconnectedInput b name socket ∈ outcome.diagnostics →
        ∃ n, g.node? b = some n ∧ n.name = name ∧ ∃ s ∈ n.inputs, s.spec.name = socket := by
  have order := ReachableWith.inOrder h
  obtain ⟨node, hn⟩ := Option.isSome_iff_exists.1 (order.wired.output_exists id output)
  obtain ⟨geometry, s, run, reports, upTo⟩ := order.pass_reports hn config
  have missing : ∀ b name socket, .unconnectedInput b name socket ∈ s.diagnostics →
      g.UpTo id b ∧ ∃ n, g.node? b = some n ∧ n.name = name ∧
        ∃ p ∈ n.missingInputs, p.spec.name = socket := by
    intro b name socket hd
    rcases reports.only _ hd with early | found | ⟨b', visited, n, hn, p, hp, same⟩
    · cases early
    · exact found.elim
    · cases same
      exact ⟨(upTo b).1 visited, n, hn, rfl, p, hp, rfl⟩
  refine ⟨⟨geometry, s.diagnostics⟩, build_of_run output hn run, reports.nodup List.nodup_nil, ?_, ?_⟩
  · intro b n hn input mem
    constructor
    · intro hd
      obtain ⟨above, n', hn', -, p, hp, name⟩ := missing _ _ _ hd
      cases hn.symm.trans hn'
      rw [Node.missingInputs, List.mem_filter, Bool.and_eq_true, Bool.not_eq_true',
        Option.isNone_iff_eq_none] at hp
      have distinct := order.declares.nodup_names (fun _ standard => standard) hn .input
      obtain rfl : p = input := List.inj_on_of_nodup_map distinct hp.1 mem name
      exact ⟨above, hp.2⟩
    · rintro ⟨above, required, free⟩
      have misses : g.Misses b (.unconnectedInput b n.name input.spec.name) := by
        refine ⟨n, hn, input, List.mem_filter.2 ⟨mem, ?_⟩, rfl⟩
        rw [required, free]
        rfl
      rcases reports.all b ((upTo b).2 above) with early | all
      · cases early
      · exact all _ misses
  · intro b name socket hd
    obtain ⟨-, n, hn, hname, p, hp, hsocket⟩ := missing _ _ _ hd
    exact ⟨n, hn, hname, p, List.mem_of_mem_filter hp, hsocket⟩

/-- Copies without a base of something moved that is not there, merged with it once more, and a product
of matrices that nothing reads. -/
def unready : Graph :=
  [.add "moved" (.transform true), .add "copies" (.instantiateOnFaces true), .add "both" (.merge false),
    .add "result" .output, .add "aside" .matrixCompose,
    .connectUnchecked (.output 0 0) (.input 1 1), .connectUnchecked (.output 1 0) (.input 2 0),
    .connectUnchecked (.output 0 0) (.input 2 1), .connectUnchecked (.output 2 0) (.input 3 0),
    .setOutput 3].foldl Edit.apply .empty

theorem reachable_unready : unready.ReachableWith Block.IsStandard := by
  refine ReachableBy.foldl .empty _ ?_
  refine ⟨⟨?_, trivial⟩, ⟨?_, trivial⟩, ⟨?_, trivial⟩, ⟨?_, trivial⟩, ⟨?_, trivial⟩,
    ⟨trivial, trivial⟩, ⟨trivial, trivial⟩, ⟨trivial, trivial⟩, ⟨trivial, trivial⟩,
    ⟨trivial, trivial⟩, trivial⟩ <;> decide +kernel

/-- Of the moved block, which is called for twice, and of the copies below it the missing geometry is
reported once each; the product is left alone. -/
theorem reports_missing_unready :
    ∃ outcome, unready.build {} = .ok outcome ∧
      outcome.diagnostics.count (.unconnectedInput 0 "moved" "geometry") = 1 ∧
      outcome.diagnostics.count (.unconnectedInput 1 "copies" "geometry") = 1 ∧
      .unconnectedInput 4 "aside" "matrix0" ∉ outcome.diagnostics := by
  have output : unready.output = some 3 := by decide +kernel
  obtain ⟨outcome, built, nodup, missing, -⟩ :=
    ReachableWith.reports_missing reachable_unready output {}
  have above : ∀ b, unready.isAncestorOf b 3 → unready.UpTo 3 b := fun b leads =>
    .inr ((unready.isAncestorOf_iff b 3).1 leads)
  refine ⟨outcome, built, List.count_eq_one_of_mem nodup ?_, List.count_eq_one_of_mem nodup ?_, ?_⟩
  · exact (missing 0 _ rfl _ (List.mem_cons_self ..)).2 ⟨above 0 (by decide +kernel), rfl, rfl⟩
  · exact (missing 1 _ rfl _ (List.mem_cons_self ..)).2 ⟨above 1 (by decide +kernel), rfl, rfl⟩
  · intro reported
    rcases ((missing 4 _ rfl _ (List.mem_cons_self ..)).1 reported).1 with same | reaches
    · exact absurd same (by decide)
    · exact absurd ((unready.isAncestorOf_iff 4 3).2 reaches) (by decide +kernel)

end Graph
end MeshFlow
