import MeshFlow.Proofs.Outcome
import MeshFlow.Proofs.Standard

set_option autoImplicit false

/-!
# Passes underway

A pass may call for any block or output at any moment, under any contexts and while other blocks
are still being built. What is read of a block that is not finished is null; so claims that allow
for null are borne out by every session of a pass, and every call from it ends. In particular every
call leaves the contexts as it found them, since what is stored is run in a scope.
-/
namespace MeshFlow

/-- What is run at reads reports what is claimed. -/
def Facts.Notes (F : Facts) (g : Graph) (owner : BlockId) : Supply → Prop
  | .value _ => True
  | .onRead program => ∀ c, program.Notes (F.answers g owner) F.overflows c

/-- The claims allow for null, and whatever is built at any time bears them out if what it reads
does. -/
structure Facts.Lasting (F : Facts) (g : Graph) : Prop where
  null : ∀ p c, F.output p c .null
  notes : ∀ id n, g.node? id = some n → n.missingInputs.isEmpty → ∀ c,
    (n.block.plan id n.name).Notes (F.answers g id) F.overflows c
  planned : ∀ id n, g.node? id = some n → n.missingInputs.isEmpty → ∀ c,
    (n.block.plan id n.name).Always (F.answers g id)
      (fun plan _ => (∀ e ∈ plan.outputs, F.Supplies g id e.1 e.2 ∧ F.Notes g id e.2) ∧
        ∀ v, plan.result = some v → F.result id (some v)) c

/-- Everything that a session holds bears the claims out. -/
structure Session.Sound (F : Facts) (g : Graph) (s : Session) : Prop where
  stored : ∀ p x, s.stored.lookup p = some x → F.Stores g p x
  noted : ∀ p owner program, s.stored.lookup p = some (.deferred owner program) →
    F.Notes g owner (.onRead program)
  kept : ∀ id key v, s.kept[(id, key)]? = some v → F.kept id key v
  result : ∀ v, s.result = some v → ∃ id, F.result id (some v)

section
variable {F : Facts} {g : Graph} {s s' : Session}

namespace Session.Sound

theorem start (F : Facts) (g : Graph) (config : BuildConfig) : (Session.start config).Sound F g where
  stored _ _ h := by cases h
  noted _ _ _ h := by cases h
  kept id key v h := by simp [Session.start] at h
  result _ h := by cases h

theorem of_same (h : s.Sound F g) (stored : s'.stored = s.stored) (kept : s'.kept = s.kept)
    (result : s'.result = s.result) : s'.Sound F g where
  stored := by
    rw [stored]
    exact h.stored
  noted := by
    rw [stored]
    exact h.noted
  kept := by
    rw [kept]
    exact h.kept
  result := by
    rw [result]
    exact h.result

theorem record (h : s.Sound F g) (d : Diagnostic) : (s.record d).Sound F g :=
  h.of_same (s.unbuilt_record d).stored (s.kept_record d) (s.unbuilt_record d).result

theorem keep (h : s.Sound F g) {id : BlockId} {key : Int} {v : Value} (fact : F.kept id key v) :
    Sound F g { s with kept := s.kept.insert (id, key) v } where
  stored := h.stored
  noted := h.noted
  kept := Facts.kept_insert h.kept fact
  result := h.result

theorem storing (h : s.Sound F g) {id : BlockId} {outputs : List (Nat × Supply)}
    (stores : ∀ e ∈ outputs, F.Stores g (.output id e.1) (e.2.stored id) ∧ F.Notes g id e.2)
    {result : Option Value} (handed : ∀ v, result = some v → F.result id (some v)) :
    Sound F g { s.storing id outputs with result := result <|> s.result } where
  stored p x hx := by
    rcases Session.lookup_storing hx with ⟨e, he, rfl, rfl⟩ | old
    · exact (stores e he).1
    · exact h.stored p x old
  noted p owner program hx := by
    rcases Session.lookup_storing hx with ⟨⟨index, supply⟩, he, rfl, same⟩ | old
    · cases supply <;> cases same
      exact (stores _ he).2
    · exact h.noted p owner program old
  kept := h.kept
  result v hv := by
    cases result with
    | some w => exact ⟨id, handed v hv⟩
    | none => exact h.result v hv

end Session.Sound

/-- All that is new among the reports is within `N`. -/
def Session.NotesOnly (N : Nat → Prop) (s s' : Session) : Prop :=
  ∀ d ∈ s'.diagnostics, d ∈ s.diagnostics ∨ d.Within N

namespace Session.NotesOnly
variable {N : Nat → Prop} {s s' s'' : Session}

theorem of_same (same : s'.diagnostics = s.diagnostics) : s.NotesOnly N s' := fun _ mem =>
  .inl (same ▸ mem)

theorem trans (h : s.NotesOnly N s') (h' : s'.NotesOnly N s'') : s.NotesOnly N s'' := fun d mem =>
  (h' d mem).elim (h d) .inr

theorem record (h : s.NotesOnly N s') {d : Diagnostic} (within : d.Within N) :
    s.NotesOnly N (s'.record d) := by
  intro e mem
  rcases (s'.mem_record d e).1 mem with old | rfl
  · exact h e old
  · exact .inr within

end Session.NotesOnly

/-- What a call at any moment of a pass comes to. -/
structure Session.Keeps (F : Facts) (g : Graph) (s s' : Session) : Prop where
  sound : s'.Sound F g
  contexts : s'.contexts = s.contexts
  notes : s.NotesOnly F.overflows s'

theorem Session.Keeps.refl (sound : s.Sound F g) : s.Keeps F g s := ⟨sound, rfl, .of_same rfl⟩

theorem Session.Keeps.trans {s'' : Session} (h : s.Keeps F g s') (h' : s'.Keeps F g s'') :
    s.Keeps F g s'' :=
  ⟨h'.sound, h'.contexts.trans h.contexts, h.notes.trans h'.notes⟩

/-- A supplier answers for blocks below a height at any moment of a pass. -/
structure Supplier.Serves (F : Facts) (g : Graph) (n : Nat) (above : Supplier) : Prop where
  build : ∀ id s, g.height id < n → s.Sound F g →
    Ends (above.build id) s fun _ s' => s.Keeps F g s'
  read : ∀ p s, g.height p.block < n → s.Sound F g →
    Ends (above.read p) s fun v s' => s.Keeps F g s' ∧ F.output p s.contexts v

namespace Supplier.Serves
variable {n : Nat} {above : Supplier}

theorem readInput (h : above.Serves F g n) (p : SocketId)
    (low : ∀ o, g.peer? p = some o → g.height o.block < n) (sound : s.Sound F g) :
    Ends (g.readInput above p) s fun v s' => s.Keeps F g s' ∧ F.input g p s.contexts v := by
  unfold Graph.readInput Facts.input
  unfold Graph.peer? at low
  cases hs : g.socket? p with
  | none => exact (ends_pure ..).2 ⟨.refl sound, rfl⟩
  | some socket =>
    cases peer : socket.peer with
    | none =>
      simp only [peer]
      exact (ends_pure ..).2 ⟨.refl sound, rfl⟩
    | some o =>
      simp only [peer]
      exact h.read o s (low o (by rw [hs]; exact peer)) sound

theorem isVarying (h : above.Serves F g n) (p : SocketId)
    (low : ∀ o, g.peer? p = some o → g.height o.block < n) (sound : s.Sound F g) :
    Ends (g.isVarying above p) s fun _ s' => s.Keeps F g s' := by
  rw [Graph.isVarying]
  cases peer : g.peer? p with
  | none => exact (ends_pure ..).2 (.refl sound)
  | some o =>
    simp only [ends_bind, ends_get, ends_pure]
    exact h.build _ s (low o peer) sound

theorem noting (h : above.Serves F g n) {owner : BlockId}
    (low : ∀ i o, g.peer? (.input owner i) = some o → g.height o.block < n) (s : Session) :
    g.Runs above owner (F.answers g owner) F.overflows
      fun t => t.Sound F g ∧ s.NotesOnly F.overflows t where
  read i _ before := (h.readInput _ (low i) before.1).mono fun _ _ ⟨keeps, fact⟩ =>
    ⟨⟨keeps.sound, before.2.trans keeps.notes⟩, keeps.contexts, fact⟩
  varying i _ before := (h.isVarying _ (low i) before.1).mono fun _ _ keeps =>
    ⟨⟨keeps.sound, before.2.trans keeps.notes⟩, keeps.contexts⟩
  connected _ := rfl
  enter _ _ before := ⟨before.1.of_same rfl rfl rfl, before.2⟩
  draw _ _ before := ⟨before.1.of_same rfl rfl rfl, before.2⟩
  record d _ within before := ⟨before.1.record d, before.2.record within⟩
  kept key v _ before found := before.1.kept owner key v found
  keep _ _ _ before fact := ⟨before.1.keep fact, before.2⟩

theorem runs (h : above.Serves F g n) {owner : BlockId}
    (low : ∀ i o, g.peer? (.input owner i) = some o → g.height o.block < n) :
    g.Runs above owner (F.answers g owner) (fun _ => True) (·.Sound F g) where
  read i _ sound := (h.readInput _ (low i) sound).mono fun _ _ ⟨keeps, fact⟩ =>
    ⟨keeps.sound, keeps.contexts, fact⟩
  varying i _ sound := (h.isVarying _ (low i) sound).mono fun _ _ keeps =>
    ⟨keeps.sound, keeps.contexts⟩
  connected _ := rfl
  enter _ _ sound := sound.of_same rfl rfl rfl
  draw _ _ sound := sound.of_same rfl rfl rfl
  record d _ _ sound := sound.record d
  kept key v _ sound found := sound.kept owner key v found
  keep _ _ _ sound fact := sound.keep fact

theorem buildAll (h : above.Serves F g n) (outputs : List SocketId)
    (low : ∀ o ∈ outputs, g.height o.block < n) (sound : s.Sound F g) :
    Ends (Graph.buildAll above outputs) s fun _ s' => s.Keeps F g s' := by
  induction outputs generalizing s with
  | nil => exact (ends_pure ..).2 (.refl sound)
  | cons o rest ih =>
    rw [Graph.buildAll, ends_bind]
    refine (h.build _ s (low o (List.mem_cons_self ..)) sound).mono fun _ s' keeps => ?_
    exact (ih (fun p hp => low p (List.mem_cons_of_mem _ hp)) keeps.sound).mono
      fun _ s'' keeps' => keeps.trans keeps'

theorem buildNode (h : above.Serves F g n) (lasting : F.Lasting g) {id : BlockId} {node : Node}
    (hn : g.node? id = some node) (low : ∀ a, g.Feeds a id → g.height a < n)
    (peers : ∀ i o, g.peer? (.input id i) = some o → g.Feeds o.block id) (sound : s.Sound F g) :
    Ends (g.buildNode above id node) s fun _ s' => s.Keeps F g s' := by
  have feeds : ∀ o ∈ node.peers, g.height o.block < n := fun o ho =>
    low _ ((Graph.feeds_iff ..).2 ⟨node, hn, o, ho, rfl⟩)
  rw [Graph.buildNode, ends_bind]
  refine (h.buildAll node.peers feeds sound).mono fun _ t keeps => ?_
  split
  · rename_i complete
    rw [ends_bind, ends_keepingContexts]
    have always := (lasting.planned id node hn complete t.contexts).and
      (node.block.plan_restores id node.name _ _)
    refine ((h.noting (fun i o peer => low _ (peers i o peer)) t).runProgram _
      ⟨keeps.sound, .of_same rfl⟩ (lasting.notes id node hn complete _) always).mono fun plan t' => ?_
    rintro ⟨⟨sound', notes⟩, ⟨supplies, handed⟩, restores⟩
    rw [ends_modify, Session.follow_eq]
    have after : Session.Sound F g { t' with contexts := t.contexts } := sound'.of_same rfl rfl rfl
    refine keeps.trans ⟨after.storing (fun e he => ?_) handed, rfl, notes⟩
    exact ⟨(supplies e he).1.stores (restores e he), (supplies e he).2⟩
  · rw [ends_modify, Session.storeNulls_eq]
    obtain ⟨unbuilt, kept, same⟩ :=
      Session.foldl_record (fun p => .unconnectedInput id node.name p.spec.name) node.missingInputs t
    have recorded : Session.Sound F g _ := keeps.sound.of_same unbuilt.stored kept unbuilt.result
    refine keeps.trans ⟨recorded.storing ?_ (fun _ (h : none = some _) => by cases h), same, ?_⟩
    · intro e he
      obtain ⟨index, -, rfl⟩ := List.mem_map.1 he
      exact ⟨lasting.null _, True.intro⟩
    · intro d mem
      refine ((Session.mem_foldl_record _ _ t d).1 mem).imp_right ?_
      rintro ⟨p, -, rfl⟩
      exact True.intro

end Supplier.Serves

theorem Graph.supplierWithin_serves (lasting : F.Lasting g) (wired : g.Wired) (acyclic : g.Acyclic)
    (n : Nat) : (g.supplierWithin n).Serves F g n := by
  induction n with
  | zero => exact ⟨fun _ _ low => absurd low (Nat.not_lt_zero _),
      fun _ _ low => absurd low (Nat.not_lt_zero _)⟩
  | succ n ih =>
    have build : ∀ id s, g.height id < n + 1 → s.Sound F g →
        Ends (g.buildBlockWith (g.supplierWithin n) id) s fun _ s' => s.Keeps F g s' := by
      intro id s low sound
      by_cases built : id ∈ s.built
      · refine (Graph.buildBlockWith_of_built built).mono fun _ s' => ?_
        rintro rfl
        exact .refl sound
      · simp only [Graph.buildBlockWith, ends_bind, ends_get, List.contains_iff_mem, built, if_false,
          ends_modify]
        have noted : s.Keeps F g { s with built := id :: s.built } :=
          ⟨sound.of_same rfl rfl rfl, rfl, .of_same rfl⟩
        cases hn : g.node? id with
        | none => exact (ends_pure ..).2 noted
        | some node =>
          exact (ih.buildNode lasting hn
            (fun a feeds => Nat.lt_of_lt_of_le (acyclic.height_lt feeds) (Nat.le_of_lt_succ low))
            (fun i o peer => wired.feeds_of_peer? peer) noted.sound).mono
              fun _ _ keeps => noted.trans keeps
    refine ⟨build, fun p s low sound => ?_⟩
    change Ends (g.readOutputWith (g.supplierWithin n) p) s _
    rw [Graph.readOutputWith, ends_bind]
    refine (build p.block s low sound).mono fun _ s' keeps => ?_
    simp only [ends_bind, ends_get]
    rw [← keeps.contexts]
    cases hx : s'.stored.lookup p with
    | none => exact (ends_pure ..).2 ⟨keeps, lasting.null p _⟩
    | some x =>
      have stores := keeps.sound.stored p x hx
      cases x with
      | value v => exact (ends_pure ..).2 ⟨keeps, stores _⟩
      | deferred owner program =>
        have notes := keeps.sound.noted p owner program hx
        obtain ⟨rfl, always⟩ := stores
        have below : ∀ i o, g.peer? (.input p.block i) = some o → g.height o.block < n :=
          fun i o peer => Nat.lt_of_lt_of_le (acyclic.height_lt (wired.feeds_of_peer? peer))
            (Nat.le_of_lt_succ low)
        refine ((ih.noting below s').runProgram program ⟨keeps.sound, .of_same rfl⟩ (notes _)
          (always _)).mono ?_
        rintro v t ⟨⟨sound'', notes'⟩, fact, same⟩
        exact ⟨keeps.trans ⟨sound'', same, notes'⟩, fact⟩

/-- The sessions that a pass can come to: calls for blocks and outputs follow one another, with any
contexts entered, any random numbers drawn and anything reported in between, and with any blocks
visited whose own building has not come to an end. -/
inductive Graph.InPass (g : Graph) : Session → Prop where
  | start (config : BuildConfig) : g.InPass (.start config)
  | enter {s : Session} (contexts : Contexts) : g.InPass s → g.InPass { s with contexts }
  | draw {s : Session} (generator : Random.Generator) : g.InPass s → g.InPass { s with generator }
  | record {s : Session} (d : Diagnostic) : g.InPass s → g.InPass (s.record d)
  | visit {s : Session} (id : BlockId) : g.InPass s → g.InPass { s with built := id :: s.built }
  | build {s s' : Session} {id : BlockId} : g.InPass s →
    (g.supplier.build id).run s = some ((), s') → g.InPass s'
  | read {s s' : Session} {p : SocketId} {v : Value} : g.InPass s →
    (g.supplier.read p).run s = some (v, s') → g.InPass s'

theorem Ends.of_run {α : Type} {b : Build α} {post : α → Session → Prop} (h : Ends b s post) {a : α}
    (run : b.run s = some (a, s')) : post a s' := by
  obtain ⟨a', s'', run', holds⟩ := h
  rw [run] at run'
  cases run'
  exact holds

namespace Graph

theorem supplier_serves (lasting : F.Lasting g) (wired : g.Wired) (acyclic : g.Acyclic) :
    g.supplier.Serves F g (g.size + 1) :=
  supplierWithin_serves lasting wired acyclic _

variable (lasting : F.Lasting g) (wired : g.Wired) (acyclic : g.Acyclic)
include lasting wired acyclic

theorem InPass.sound (h : g.InPass s) : s.Sound F g := by
  have serves := supplier_serves lasting wired acyclic
  have low : ∀ id, g.height id < g.size + 1 := fun id => Nat.lt_succ_of_le (wired.height_le_size id)
  induction h with
  | start config => exact .start F g config
  | enter | draw | visit => rename_i ih; exact ih.of_same rfl rfl rfl
  | record d _ ih => exact ih.record d
  | build _ run ih => exact ((serves.build _ _ (low _) ih).of_run run).sound
  | read _ run ih => exact ((serves.read _ _ (low _) ih).of_run run).1.sound

theorem InPass.build_ends (h : g.InPass s) (id : BlockId) :
    Ends (g.supplier.build id) s fun _ s' => s.Keeps F g s' :=
  (supplier_serves lasting wired acyclic).build id s (Nat.lt_succ_of_le (wired.height_le_size id))
    (h.sound lasting wired acyclic)

theorem InPass.read_ends (h : g.InPass s) (p : SocketId) :
    Ends (g.supplier.read p) s fun v s' => s.Keeps F g s' ∧ F.output p s.contexts v :=
  (supplier_serves lasting wired acyclic).read p s (Nat.lt_succ_of_le (wired.height_le_size _))
    (h.sound lasting wired acyclic)

theorem InPass.readInput_ends (h : g.InPass s) (p : SocketId) :
    Ends (g.readInput g.supplier p) s fun v s' => s.Keeps F g s' ∧ F.input g p s.contexts v :=
  (supplier_serves lasting wired acyclic).readInput p
    (fun o _ => Nat.lt_succ_of_le (wired.height_le_size o.block)) (h.sound lasting wired acyclic)

end Graph

theorem Facts.trivial_lasting (g : Graph) : Facts.trivial.Lasting g where
  null _ _ := True.intro
  notes id n _ _ := Program.notes_of_all (fun _ => True.intro) _
  planned id n _ _ := by
    refine Program.always_of_forall (fun _ _ => True.intro) (fun plan _ => ?_) _
    refine ⟨fun entry _ => ?_, fun _ _ => True.intro⟩
    rcases entry with ⟨index, v | program⟩
    · exact ⟨fun _ => True.intro, True.intro⟩
    · exact ⟨fun c => Program.always_of_forall (fun _ _ => True.intro) (fun _ _ => True.intro) _ c,
        Program.notes_of_all (fun _ => True.intro) _⟩

end

namespace Graph

/-- At every moment of a pass, to build a block, to read an output and to read an input each comes
to an end, and leaves the contexts in force as they were. -/
theorem ReachableWith.contexts_kept {g : Graph} (h : g.ReachableWith Block.IsStandard) {s : Session}
    (underway : g.InPass s) :
    (∀ id, Ends (g.supplier.build id) s fun _ s' => s'.contexts = s.contexts) ∧
      (∀ p, Ends (g.supplier.read p) s fun _ s' => s'.contexts = s.contexts) ∧
      ∀ p, Ends (g.readInput g.supplier p) s fun _ s' => s'.contexts = s.contexts := by
  have reachable : g.Reachable := ReachableWith.reachable h
  have wired := Reachable.wired reachable
  have acyclic := Reachable.acyclic reachable
  have lasting := Facts.trivial_lasting g
  refine ⟨fun id => ?_, fun p => ?_, fun p => ?_⟩
  · exact (underway.build_ends lasting wired acyclic id).mono fun _ _ keeps => keeps.contexts
  · exact (underway.read_ends lasting wired acyclic p).mono fun _ _ keeps => keeps.1.contexts
  · exact (underway.readInput_ends lasting wired acyclic p).mono fun _ _ keeps => keeps.1.contexts

/-- Copies of a sphere, its vertices painted one by one, on the faces of a box that is moved. -/
def nested : Graph :=
  [.add "sphere" (.sphere true), .add "paint" (.setAttribute .color true),
    .add "loop" (.instantiate true), .add "base" (.box false),
    .add "faces" (.instantiateOnFaces true), .add "step" (.input (.ofSource .loopId)),
    .connectUnchecked (.output 0 0) (.input 1 0), .connectUnchecked (.output 5 0) (.input 1 1),
    .connectUnchecked (.output 1 0) (.input 2 0), .connectUnchecked (.output 3 0) (.input 4 0),
    .connectUnchecked (.output 2 0) (.input 4 1)].foldl Edit.apply .empty

theorem contexts_kept_nested :
    Ends (nested.supplier.read (.output 4 0))
      { Session.start {} with contexts := { execution := some (.atStep 7 3) } }
      fun _ s' => s'.contexts = { execution := some (.atStep 7 3) } := by
  have reached : nested.ReachableWith Block.IsStandard := by
    refine ReachableBy.foldl .empty _ ?_
    refine ⟨⟨?_, trivial⟩, ⟨?_, trivial⟩, ⟨?_, trivial⟩, ⟨?_, trivial⟩, ⟨?_, trivial⟩, ⟨?_, trivial⟩,
      ⟨trivial, trivial⟩, ⟨trivial, trivial⟩, ⟨trivial, trivial⟩, ⟨trivial, trivial⟩,
      ⟨trivial, trivial⟩, trivial⟩ <;> decide +kernel
  exact (ReachableWith.contexts_kept reached (.enter _ (.start {}))).2.1 (.output 4 0)

end Graph
end MeshFlow
