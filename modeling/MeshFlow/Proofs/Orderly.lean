import MeshFlow.Proofs.Storing

set_option autoImplicit false

/-!
# Programs run underway

At any moment of a pass a program can be run to its end, request by request, and leaves a session
from which the next one can be run; a loop leaves as many steps behind it, each from where the one
before it ended. An input that does not vary yields one value from then on. And to read an output
that has not been built, or is worked out at every read, is to run the program of its block from
some moment of the pass when all that feeds the block has been visited, under the contexts of the
reader.
-/
namespace MeshFlow

/-- Steps that follow one another, each from where the one before it ended. -/
inductive Steps {α σ : Type} (step : σ → α → σ → Prop) : σ → List α → σ → Prop
  | nil (s : σ) : Steps step s [] s
  | cons {s s' s'' : σ} {a : α} {rest : List α} :
    step s a s' → Steps step s' rest s'' → Steps step s (a :: rest) s''

theorem Steps.append {α σ : Type} {step : σ → α → σ → Prop} {s s' s'' : σ} {xs ys : List α}
    (h : Steps step s xs s') (h' : Steps step s' ys s'') : Steps step s (xs ++ ys) s'' := by
  induction h with
  | nil => exact h'
  | cons first _ ih => exact .cons first (ih h')

theorem Steps.exists_of_mem {α σ : Type} {step : σ → α → σ → Prop} {s s' : σ} {xs : List α}
    (h : Steps step s xs s') {a : α} (mem : a ∈ xs) : ∃ t t', step t a t' := by
  induction h with
  | nil => cases mem
  | cons first _ ih =>
    rcases List.mem_cons.1 mem with rfl | mem
    · exact ⟨_, _, first⟩
    · exact ih mem

/-- The session once geometry of so many vertices has been handed on. -/
def Session.noting (s : Session) (overflows : Bool) (vertices : Nat) : Session :=
  if overflows then s.record (.overflow vertices) else s

theorem Session.isLost_noting (s : Session) (overflows : Bool) (vertices : Nat) :
    (s.noting overflows vertices).isLost = (s.isLost || overflows) := by
  cases overflows with
  | true => exact s.isLost_record _
  | false => exact (Bool.or_false _).symm

namespace Graph
variable {α β : Type} {g : Graph} {s : Session}

theorem runProgram_bind (g : Graph) (above : Supplier) (owner : BlockId) (p : Program α)
    (f : α → Program β) :
    g.runProgram above owner (p.bind f)
      = g.runProgram above owner p >>= fun a => g.runProgram above owner (f a) := by
  induction p with
  | done a => exact (pure_bind ..).symm
  | isConnected i k ih => exact ih _
  | read i k ih | adapt i kind k ih | isVarying i k ih | contexts k ih | enter c k ih | draw k ih
  | record d k ih | kept key k ih | keep key v k ih =>
    simp only [Program.bind, runProgram, ih, bind_assoc]

theorem ends_runProgram_bind (above : Supplier) (owner : BlockId) (p : Program α)
    (f : α → Program β) (post : β → Session → Prop) :
    Ends (g.runProgram above owner (p >>= f)) s post ↔
      Ends (g.runProgram above owner p) s fun a s' =>
        Ends (g.runProgram above owner (f a)) s' post := by
  rw [← ends_bind, ← runProgram_bind]
  rfl

section requests
variable (g) (above : Supplier) (owner : BlockId)

theorem ends_return (a : α) (post : α → Session → Prop) :
    Ends (g.runProgram above owner (pure a)) s post ↔ post a s :=
  ends_pure ..

theorem ends_currentContexts (post : Contexts → Session → Prop) :
    Ends (g.runProgram above owner Program.currentContexts) s post ↔ post s.contexts s := by
  simp only [Program.currentContexts, runProgram, ends_bind, ends_get, ends_pure]

theorem ends_setContexts (c : Contexts) (post : Unit → Session → Prop) :
    Ends (g.runProgram above owner (Program.setContexts c)) s post ↔
      post () { s with contexts := c } := by
  simp only [Program.setContexts, runProgram, ends_bind, ends_modify, ends_pure]

theorem ends_uniform (post : Float32 → Session → Prop) :
    Ends (g.runProgram above owner Program.uniform) s post ↔
      post s.generator.unit.1 { s with generator := s.generator.unit.2 } := by
  simp only [Program.uniform, runProgram, ends_bind, ends_get, ends_modify, ends_pure]

theorem ends_report (d : Diagnostic) (post : Unit → Session → Prop) :
    Ends (g.runProgram above owner (Program.report d)) s post ↔ post () (s.record d) := by
  simp only [Program.report, runProgram, ends_bind, ends_modify, ends_pure]

theorem ends_handOn (overflows : Bool) (vertices : Nat) (v : Value)
    (post : Value → Session → Prop) :
    Ends (g.runProgram above owner (Program.handOn overflows vertices v)) s post ↔
      post v (s.noting overflows vertices) := by
  rw [Program.handOn, Session.noting]
  split
  · rw [ends_runProgram_bind, ends_report, ends_return]
  · exact ends_return ..

theorem ends_inScope (p : Program α) (post : α → Session → Prop) :
    Ends (g.runProgram above owner (Program.inScope p)) s post ↔
      Ends (g.runProgram above owner p) s fun a s' =>
        post a { s' with contexts := s.contexts } := by
  simp only [Program.inScope, ends_runProgram_bind, ends_currentContexts, ends_setContexts,
    ends_return]

end requests

theorem runProgram_mesh? (above : Supplier) (owner : BlockId) (i : Nat) :
    g.runProgram above owner (Program.mesh? i) = g.readMesh? above (.input owner i) := rfl

theorem runProgram_int (above : Supplier) (owner : BlockId) (i : Nat) (usual : Int32) :
    g.runProgram above owner (Program.int i usual) = g.readInt above (.input owner i) usual := rfl

theorem runProgram_float (above : Supplier) (owner : BlockId) (i : Nat) (usual : Float32) :
    g.runProgram above owner (Program.float i usual) = g.readFloat above (.input owner i) usual :=
  rfl

end Graph

theorem Ends.with_run {α : Type} {b : Build α} {s : Session} {post : α → Session → Prop}
    (h : Ends b s post) : Ends b s fun a s' => post a s' ∧ b.run s = some (a, s') := by
  obtain ⟨a, s', run, holds⟩ := h
  exact ⟨a, s', run, holds, run⟩

theorem ends_iff_of_run {α : Type} {b : Build α} {s s' : Session} {a : α}
    (run : b.run s = some (a, s')) (post : α → Session → Prop) : Ends b s post ↔ post a s' :=
  ⟨fun ends => ends.of_run run, fun holds => ⟨a, s', run, holds⟩⟩

/-- Any request can be answered from the session, and what is stored reports only what programs
find. -/
structure Session.Orderly (g : Graph) (s : Session) : Prop where
  sound : s.Sound .trivial g
  finds : s.OnlyFinds

theorem Session.Orderly.of_same {g : Graph} {s s' : Session} (h : s.Orderly g)
    (stored : s'.stored = s.stored) (kept : s'.kept = s.kept) (result : s'.result = s.result) :
    s'.Orderly g where
  sound := h.sound.of_same stored kept result
  finds p x hx := h.finds p x (by rwa [← stored])

theorem Session.Orderly.enter {g : Graph} {s : Session} (h : s.Orderly g) (contexts : Contexts) :
    Session.Orderly g { s with contexts } :=
  h.of_same rfl rfl rfl

theorem Session.Orderly.record {g : Graph} {s : Session} (h : s.Orderly g) (d : Diagnostic) :
    (s.record d).Orderly g :=
  h.of_same (s.unbuilt_record d).stored (s.kept_record d) (s.unbuilt_record d).result

/-- The session goes on, with the contexts that are in force. -/
structure Session.GoesOn (g : Graph) (s s' : Session) : Prop where
  orderly : s'.Orderly g
  contexts : s'.contexts = s.contexts

namespace Graph.InOrder
variable {g : Graph} {s : Session} {α : Type}

theorem serves (order : g.InOrder) : g.supplier.Serves .trivial g (g.size + 1) :=
  supplier_serves (Facts.trivial_lasting g) order.wired order.acyclic

theorem low (order : g.InOrder) (id : BlockId) : g.height id < g.size + 1 :=
  Nat.lt_succ_of_le (order.wired.height_le_size id)

theorem reports (order : g.InOrder) : g.supplier.Reports g := supplierWithin_reports order.declares _

theorem runs (order : g.InOrder) (owner : BlockId) :
    g.Runs g.supplier owner (Facts.trivial.answers g owner) (fun _ => True) (Session.Orderly g) := by
  have low : ∀ i o, g.peer? (.input owner i) = some o → g.height o.block < g.size + 1 :=
    fun _ o _ => order.low o.block
  have base := order.serves.runs low
  constructor
  case read =>
    intro i s orderly
    refine ((base.read i s orderly.sound).and_ifEnds
      (order.reports.readInput _ orderly.finds)).mono ?_
    rintro v s' ⟨⟨sound, contexts, fact⟩, reports⟩
    exact ⟨⟨sound, reports.finds⟩, contexts, fact⟩
  case varying =>
    intro i s orderly
    refine ((base.varying i s orderly.sound).and_ifEnds
      (order.reports.isVarying _ orderly.finds)).mono ?_
    rintro b s' ⟨⟨sound, contexts⟩, reports⟩
    exact ⟨⟨sound, reports.finds⟩, contexts⟩
  case connected => exact fun _ => rfl
  case enter => exact fun contexts s orderly => orderly.enter contexts
  case draw => exact fun _ s orderly => orderly.of_same rfl rfl rfl
  case record => exact fun d s _ orderly => orderly.record d
  case kept => exact fun _ _ _ _ _ => True.intro
  case keep => exact fun _ _ _ orderly _ => ⟨orderly.sound.keep True.intro, orderly.finds⟩

theorem ends_program (order : g.InOrder) (orderly : s.Orderly g) (owner : BlockId) {p : Program α}
    (restores : p.Restores) :
    Ends (g.runProgram g.supplier owner p) s fun a s' =>
      s.GoesOn g s' ∧ (g.runProgram g.supplier owner p).run s = some (a, s') := by
  have always : p.Always (Facts.trivial.answers g owner) (fun _ _ => True) s.contexts :=
    Program.always_of_forall (fun _ _ => True.intro) (fun _ _ => True.intro) _ _
  refine (((order.runs owner).runProgram p orderly (Program.notes_of_all (fun _ => True.intro) _ _)
    (always.and (restores _ _))).mono ?_).with_run
  rintro _ s' ⟨orderly', -, contexts⟩
  exact ⟨orderly', contexts⟩

end Graph.InOrder

theorem Graph.InPass.orderly {g : Graph} {s : Session} (h : g.InPass s) (order : g.InOrder) :
    s.Orderly g := by
  refine ⟨h.sound (Facts.trivial_lasting g) order.wired order.acyclic, ?_⟩
  induction h with
  | start config => exact fun _ _ hx => nomatch hx
  | enter | draw | visit => rename_i ih; exact ih
  | record d _ ih => exact fun p x hx => ih p x ((Session.unbuilt_record _ d).stored ▸ hx)
  | build _ run ih => exact (order.reports.build _ _ ih _ _ run).finds
  | read _ run ih => exact (order.reports.read _ _ ih _ _ run).finds

theorem Graph.InPass.readMesh? {g : Graph} {s s' : Session} (h : g.InPass s) {p : SocketId}
    {m? : Option Mesh} (run : (g.readMesh? g.supplier p).run s = some (m?, s')) :
    g.InPass s' ∧ ∀ b ∈ s.built, b ∈ s'.built := by
  have reads : IfEnds (g.readInput g.supplier p) s fun _ s' => g.InPass s' := by
    rw [Graph.readInput]
    split
    · exact (ifEnds_pure ..).2 h
    · split
      · exact fun _ _ read => .read h read
      · exact (ifEnds_pure ..).2 h
  have adapts : IfEnds (g.adaptInput g.supplier p .geometry) s fun _ s' => g.InPass s' := by
    rw [Graph.adaptInput, ifEnds_bind]
    refine reads.mono fun v s' ok => ?_
    split
    · exact (ifEnds_pure ..).2 ok
    · split
      · simp only [ifEnds_bind, ifEnds_modify, ifEnds_pure]
        exact .record _ ok
      · exact (ifEnds_pure ..).2 ok
  have both : IfEnds (g.readMesh? g.supplier p) s fun _ s' =>
      g.InPass s' ∧ ∀ b ∈ s.built, b ∈ s'.built := by
    rw [Graph.readMesh?, ifEnds_bind]
    intro v s' run
    have onward := g.supplier_visits.adaptInput p .geometry True.intro v s' run
    exact (ifEnds_pure ..).2 ⟨adapts v s' run, onward.built⟩
  exact both _ _ run

theorem Graph.read_fixed {g : Graph} {t : Session} {o : SocketId} (visited : o.block ∈ t.built)
    (fixed : t.isDeferred o = false) :
    ∃ v, ∀ t' : Session, t'.stored = t.stored → t'.built = t.built →
      (g.supplier.read o).run t' = some (v, t') := by
  have reads : ∀ v, (t.stored.lookup o = some (.value v) ∨ t.stored.lookup o = none ∧ v = .null) →
      ∀ t' : Session, t'.stored = t.stored → t'.built = t.built →
        (g.supplier.read o).run t' = some (v, t') := by
    intro v found t' stored built
    have ends : Ends (g.readOutputWith (g.supplierWithin g.size) o) t'
        fun w t'' => w = v ∧ t'' = t' := by
      rw [Graph.readOutputWith, ends_bind]
      refine (Graph.buildBlockWith_of_built (built ▸ visited)).mono fun _ t'' same => ?_
      subst same
      simp only [ends_bind, ends_get, stored]
      rcases found with found | ⟨found, rfl⟩
      · simp only [found]
        exact (ends_pure ..).2 ⟨rfl, rfl⟩
      · simp only [found]
        exact (ends_pure ..).2 ⟨rfl, rfl⟩
    obtain ⟨_, _, run, rfl, rfl⟩ := ends
    exact run
  cases found : t.stored.lookup o with
  | none => exact ⟨.null, reads _ (.inr ⟨found, rfl⟩)⟩
  | some x =>
    cases x with
    | value v => exact ⟨v, reads v (.inl found)⟩
    | deferred owner program => simp [Session.isDeferred, found] at fixed

/-- An input that does not vary yields one value from then on, and to read it changes nothing. -/
theorem Graph.fixed_input {g : Graph} {s t : Session} {p : SocketId}
    (run : (g.isVarying g.supplier p).run s = some (false, t)) :
    ∃ v, ∀ t', t'.stored = t.stored → t'.built = t.built →
      (g.readInput g.supplier p).run t' = some (v, t') := by
  unfold Graph.isVarying Graph.peer? at run
  unfold Graph.readInput
  cases hs : g.socket? p with
  | none => exact ⟨.null, fun _ _ _ => rfl⟩
  | some socket =>
    cases peer : socket.peer with
    | none =>
      simp only [peer]
      exact ⟨_, fun _ _ _ => rfl⟩
    | some o =>
      simp only [hs, peer, Option.bind_some] at run ⊢
      have settles : IfEnds (do g.supplier.build o.block; return (← get).isDeferred o) s
          fun b t => o.block ∈ t.built ∧ t.isDeferred o = b := by
        simp only [ifEnds_bind, ifEnds_get, ifEnds_pure, and_true]
        exact (g.supplier_visits.build _ s True.intro).mono fun _ _ both => both.2
      obtain ⟨visited, fixed⟩ := settles _ _ run
      exact read_fixed visited fixed

/-- What the first output of a block yields is to be worked out: it has not been built, or is
worked out at every read. -/
def Session.WorksOut (s : Session) (id : BlockId) (p : Program Value) : Prop :=
  id ∉ s.built ∨ s.stored.lookup (.output id 0) = some (.deferred id p)

theorem Graph.InPass.buildAll {g : Graph} {s t : Session} (order : g.InOrder)
    (outputs : List SocketId) (h : g.InPass s)
    (run : (Graph.buildAll g.supplier outputs).run s = some ((), t)) :
    g.InPass t ∧ t.contexts = s.contexts := by
  induction outputs generalizing s with
  | nil =>
    cases run
    exact ⟨h, rfl⟩
  | cons o rest ih =>
    have split : IfEnds (Graph.buildAll g.supplier (o :: rest)) s fun _ t =>
        ∃ s', (g.supplier.build o.block).run s = some ((), s') ∧
          (Graph.buildAll g.supplier rest).run s' = some ((), t) := by
      rw [Graph.buildAll, ifEnds_bind]
      exact fun _ s' first _ t next => ⟨s', first, next⟩
    obtain ⟨s', first, next⟩ := split _ _ run
    obtain ⟨ok, contexts⟩ := ih (.build h first) next
    have keeps := (order.serves.build _ _ (order.low _) (h.orderly order).sound).of_run first
    exact ⟨ok, contexts.trans keeps.contexts⟩

theorem Session.lookup_follow (s : Session) (id : BlockId) (supply : Supply) :
    (s.follow id { outputs := [(0, supply)] }).stored.lookup (.output id 0)
      = some (supply.stored id) := by
  rw [Session.follow_eq, Session.storing]
  simp

theorem Session.lookup_storeNulls (s : Session) (id : BlockId) {outputs : Nat} (h : 0 < outputs) :
    (s.storeNulls id outputs).stored.lookup (.output id 0) = some (.value .null) := by
  have nulls : ∀ entries : List (SocketId × Stored),
      (∀ e ∈ entries, e.2 = .value .null) → (∃ e ∈ entries, e.1 = .output id 0) →
        (entries ++ s.stored).lookup (.output id 0) = some (.value .null) := by
    rintro entries null ⟨e, he, same⟩
    rw [List.lookup_append]
    cases found : entries.lookup (.output id 0) with
    | none => simpa [same] using List.lookup_eq_none_iff.1 found e he
    | some x =>
      obtain ⟨before, after, split, -⟩ := List.lookup_eq_some_iff.1 found
      obtain rfl : x = .value .null := null (.output id 0, x) (by simp [split])
      exact Option.some_or ..
  rw [Session.storeNulls_eq, Session.storing]
  refine nulls _ ?_ ⟨(.output id 0, .value .null), ?_, rfl⟩
  · simp only [List.mem_reverse, List.mem_map]
    rintro _ ⟨_, ⟨i, -, rfl⟩, rfl⟩
    rfl
  · simp only [List.mem_reverse, List.mem_map, List.mem_range]
    exact ⟨_, ⟨0, h, rfl⟩, rfl⟩

theorem Graph.ifEnds_single {g : Graph} {s : Session} (above : Supplier) (owner : BlockId)
    (p : Program Value) :
    IfEnds (g.runProgram above owner (Program.single false p)) s fun plan s' =>
      ∃ v, plan = { outputs := [(0, .value v)] } ∧
        (g.runProgram above owner p).run s = some (v, s') := by
  change IfEnds (g.runProgram above owner
    ((p.bind fun v => .done (Supply.value v)).bind fun x => .done (Plan.mk [(0, x)] none))) s _
  simp only [Graph.runProgram_bind, ifEnds_bind]
  intro v s' run
  exact (ifEnds_pure ..).2 ((ifEnds_pure ..).2 ⟨v, rfl, run⟩)

theorem Graph.read_deferred {g : Graph} {s : Session} {id : BlockId} {p : Program Value}
    (built : id ∈ s.built)
    (kept : s.stored.lookup (.output id 0) = some (.deferred id p)) :
    IfEnds (g.supplier.read (.output id 0)) s fun v t =>
      (g.runProgram g.supplier id p).run s = some (v, t) := by
  change IfEnds (g.readOutputWith (g.supplierWithin g.size) (.output id 0)) s _
  rw [readOutputWith, ifEnds_bind]
  obtain ⟨_, _, visited, rfl⟩ := @buildBlockWith_of_built g s (g.supplierWithin g.size) id built
  intro _ t again
  change (g.buildBlockWith (g.supplierWithin g.size) id).run _ = _ at again
  rw [visited] at again
  cases again
  simp only [ifEnds_bind, ifEnds_get, kept]
  exact fun v t' run =>
    g.refines_runProgram (g.supplierWithin_refines (Nat.le_succ g.size)) id p _ _ run

namespace Graph.InOrder
variable {g : Graph} {s : Session} {id : BlockId} {n : Node} {everyRead : Bool}
variable {p : Program Value}

/-- A block with one program either keeps it, or has run it at some moment of the pass, or lacks an
input. -/
theorem build_anew (order : g.InOrder) (hn : g.node? id = some n)
    (outputs : n.block.outputSpecs ≠ [])
    (plan : n.block.plan id n.name = Program.single everyRead p) (underway : g.InPass s)
    (fresh : id ∉ s.built) :
    IfEnds (g.supplier.build id) s fun _ t =>
      n.missingInputs.isEmpty = false ∧ t.stored.lookup (.output id 0) = some (.value .null) ∨
      t.stored.lookup (.output id 0) = some (.deferred id p) ∨
      ∃ v t₀ t₁, g.InPass t₀ ∧ t₀.contexts = s.contexts ∧ t₀.Fed g id ∧
        (g.runProgram g.supplier id p).run t₀ = some (v, t₁) ∧
        t.stored.lookup (.output id 0) = some (.value v) := by
  have deeper := g.supplierWithin_refines (Nat.le_succ g.size)
  change IfEnds (g.buildBlockWith (g.supplierWithin g.size) id) s _
  simp only [buildBlockWith, ifEnds_bind, ifEnds_get, List.contains_iff_mem, fresh, if_false,
    ifEnds_modify, hn]
  rw [buildNode, ifEnds_bind]
  intro _ t₀ all
  have all := refines_buildAll deeper n.peers _ _ all
  obtain ⟨ok, contexts⟩ := InPass.buildAll order n.peers (.visit id underway) all
  have visited := (g.supplier_visits.buildAll n.peers True.intro _ _ all).2
  have fed : t₀.Fed g id := fun i o peer => order.wired.visited_of_peer? hn visited peer
  split
  · rw [plan]
    simp only [keepingContexts, ifEnds_bind, ifEnds_get, ifEnds_modify, ifEnds_pure]
    cases everyRead with
    | true => exact (ifEnds_pure ..).2 (.inr (.inl (Session.lookup_follow ..)))
    | false =>
      refine (ifEnds_single (g.supplierWithin g.size) id p).mono ?_
      rintro _ t₁ ⟨v, rfl, run⟩
      exact .inr (.inr ⟨v, t₀, t₁, ok, contexts, fed, g.refines_runProgram deeper id p _ _ run,
        Session.lookup_follow ..⟩)
  · rename_i incomplete
    have some : 0 < n.outputs.length := by
      rw [← List.length_map (f := fun s : MeshFlow.Socket => s.spec),
        (order.declares.specs id n hn).2]
      exact List.length_pos_of_ne_nil outputs
    rw [ifEnds_modify]
    exact .inl ⟨by simpa using incomplete, Session.lookup_storeNulls _ _ some⟩

/-- To read what is to be worked out is to run the program at some moment of the pass under the
contexts of the reader, unless the block lacks an input. -/
theorem read_worksOut (order : g.InOrder) (hn : g.node? id = some n)
    (outputs : n.block.outputSpecs ≠ [])
    (plan : n.block.plan id n.name = Program.single everyRead p) (underway : g.InPass s)
    (works : s.WorksOut id p) :
    Ends (g.supplier.read (.output id 0)) s fun v _ =>
      (∃ t t', g.InPass t ∧ t.contexts = s.contexts ∧ t.Fed g id ∧
        (g.runProgram g.supplier id p).run t = some (v, t')) ∨
      n.missingInputs.isEmpty = false ∧ v = .null := by
  have ends := underway.read_ends (Facts.trivial_lasting g) order.wired order.acyclic (.output id 0)
  refine (ends.and_ifEnds ?_).mono fun _ _ both => both.2
  by_cases built : id ∈ s.built
  · have kept := works.resolve_left (not_not.2 built)
    exact (read_deferred built kept).mono fun v t' run =>
      .inl ⟨s, t', underway, rfl, underway.fed order.wired kept, run⟩
  · change IfEnds (g.readOutputWith (g.supplierWithin g.size) (.output id 0)) s _
    rw [readOutputWith, ifEnds_bind]
    intro _ t build
    have keeps := (order.serves.build _ _ (order.low id) (underway.orderly order).sound).of_run build
    simp only [ifEnds_bind, ifEnds_get]
    rcases order.build_anew hn outputs plan underway built _ _ build with
      ⟨incomplete, found⟩ | found | ⟨v, t₀, t₁, ok, contexts, fed, run, found⟩
    · simp only [found]
      exact (ifEnds_pure ..).2 (.inr ⟨incomplete, rfl⟩)
    · simp only [found]
      have after : g.InPass t := .build underway build
      exact fun v t' run => .inl ⟨t, t', after, keeps.contexts, after.fed order.wired found,
        g.refines_runProgram (g.supplierWithin_refines (Nat.le_succ g.size)) id p _ _ run⟩
    · simp only [found]
      exact (ifEnds_pure ..).2 (.inl ⟨t₀, t₁, ok, contexts, fed, run⟩)

end Graph.InOrder

/-- Whatever the moment of a pass at which the program of a block is run, the value has to do with
the session as is said; and that is what a read of its output yields that is to be worked out, with
the program run once the feeders of the block have been visited, unless an input is missing. -/
structure Graph.Evaluates (g : Graph) (id : BlockId) (n : Node) (p : Program Value)
    (P : Session → Value → Prop) : Prop where
  runs : ∀ s, g.InPass s → Ends (g.runProgram g.supplier id p) s fun v _ => P s v
  reads : ∀ s, g.InPass s → s.WorksOut id p →
    Ends (g.supplier.read (.output id 0)) s fun v _ =>
      (∃ t, g.InPass t ∧ t.contexts = s.contexts ∧ t.Fed g id ∧ P t v) ∨
      n.missingInputs.isEmpty = false ∧ v = .null

theorem Graph.InOrder.evaluates {g : Graph} (order : g.InOrder) {id : BlockId} {n : Node}
    {everyRead : Bool} {b : Block} {p : Program Value} {P : Session → Value → Prop}
    (hn : g.node? id = some n) (hb : n.block = b) (outputs : b.outputSpecs ≠ [])
    (plan : b.plan id n.name = Program.single everyRead p)
    (runs : ∀ s, g.InPass s → Ends (g.runProgram g.supplier id p) s fun v _ => P s v) :
    g.Evaluates id n p P where
  runs := runs
  reads s underway works := by
    subst hb
    refine (order.read_worksOut hn outputs plan underway works).mono ?_
    rintro v _ (⟨t, _, ok, contexts, fed, run⟩ | missing)
    · exact .inl ⟨t, ok, contexts, fed, (runs t ok).of_run run⟩
    · exact .inr missing

theorem Graph.ends_forEach {g : Graph} {above : Supplier} {owner : BlockId} {σ ι β γ : Type}
    {body : σ → ι → Program σ} {sort : Session → Prop} {step : Session → β → Session → Prop}
    {next : σ → β → σ} (key : β → γ) (number : ι → γ)
    (h : ∀ x i s, sort s → Ends (g.runProgram above owner (body x i)) s fun x' s' =>
      sort s' ∧ ∃ b, step s b s' ∧ key b = number i ∧ x' = next x b)
    (is : List ι) (x : σ) {s : Session} (ok : sort s) :
    Ends (g.runProgram above owner (Program.forEach body is x)) s fun x' s' =>
      sort s' ∧ ∃ bs, Steps step s bs s' ∧ bs.map key = is.map number ∧ x' = bs.foldl next x := by
  induction is generalizing x s with
  | nil => exact (ends_pure ..).2 ⟨ok, [], .nil s, rfl, rfl⟩
  | cons i rest ih =>
    refine (ends_runProgram_bind ..).2 ((h x i s ok).mono ?_)
    rintro x' s' ⟨ok', b, first, same, rfl⟩
    refine (ih (next x b) ok').mono ?_
    rintro x'' s'' ⟨ok'', bs, steps, sames, rfl⟩
    exact ⟨ok'', b :: bs, .cons first steps, by simp [same, sames], rfl⟩

end MeshFlow
