import MeshFlow.Proofs.Orderly
import MeshFlow.Proofs.Refining

set_option autoImplicit false

/-!
# Replies in a pass

Blocks read one another while they are built and read. A tracer follows a supplier and lists every
read of an output on the way, with the sessions before and after it, in the order in which the reads
come to an end. What is to be shown of all reads of one block is shown of a relation between a
session, the replies from there on, and the session afterwards: other blocks bear it out if their
single steps do.
-/
namespace MeshFlow

/-- A read of an output that has come to its end. -/
structure Reply where
  output : SocketId
  before : Session
  value : Value
  after : Session

/-- The replies on the way to what a supplier answers. -/
structure Tracer where
  build : BlockId → Session → List Reply
  read : SocketId → Session → List Reply

/-- The replies after a computation, if it ends. -/
def afterwards {α : Type} (b : Build α) (s : Session) (next : α → Session → List Reply) :
    List Reply :=
  match b.run s with
  | some (a, s') => next a s'
  | none => []

theorem afterwards_of_run {α : Type} {b : Build α} {s s' : Session} {a : α}
    (run : b.run s = some (a, s')) (next : α → Session → List Reply) :
    afterwards b s next = next a s' := by
  rw [afterwards, run]

theorem afterwards_bind {α β : Type} (b : Build α) (f : α → Build β) (s : Session)
    (next : β → Session → List Reply) :
    afterwards (b >>= f) s next = afterwards b s fun a s' => afterwards (f a) s' next := by
  simp only [afterwards, StateT.run_bind, Option.bind_eq_bind]
  cases b.run s <;> rfl

namespace Graph

def repliesToInput (g : Graph) (tracer : Tracer) (p : SocketId) (s : Session) : List Reply :=
  match g.peer? p with
  | some output => tracer.read output s
  | none => []

def repliesToVarying (g : Graph) (tracer : Tracer) (p : SocketId) (s : Session) : List Reply :=
  match g.peer? p with
  | some output => tracer.build output.block s
  | none => []

def repliesToProgram {α : Type} (g : Graph) (above : Supplier) (tracer : Tracer) (owner : BlockId) :
    Program α → Session → List Reply
  | .done _, _ => []
  | .read i k, s =>
    g.repliesToInput tracer (.input owner i) s ++
      afterwards (g.readInput above (.input owner i)) s fun v s' =>
        g.repliesToProgram above tracer owner (k v) s'
  | .adapt i kind k, s =>
    g.repliesToInput tracer (.input owner i) s ++
      afterwards (g.adaptInput above (.input owner i) kind) s fun v s' =>
        g.repliesToProgram above tracer owner (k v) s'
  | .isConnected i k, s =>
    g.repliesToProgram above tracer owner (k (g.isConnected (.input owner i))) s
  | .isVarying i k, s =>
    g.repliesToVarying tracer (.input owner i) s ++
      afterwards (g.isVarying above (.input owner i)) s fun b s' =>
        g.repliesToProgram above tracer owner (k b) s'
  | .contexts k, s => g.repliesToProgram above tracer owner (k s.contexts) s
  | .enter contexts k, s => g.repliesToProgram above tracer owner k { s with contexts }
  | .draw k, s =>
    g.repliesToProgram above tracer owner (k s.generator.unit.1)
      { s with generator := s.generator.unit.2 }
  | .record d k, s => g.repliesToProgram above tracer owner k (s.record d)
  | .kept key k, s => g.repliesToProgram above tracer owner (k s.kept[(owner, key)]?) s
  | .keep key v k, s =>
    g.repliesToProgram above tracer owner k { s with kept := s.kept.insert (owner, key) v }

theorem repliesToProgram_bind {α β : Type} (g : Graph) (above : Supplier) (tracer : Tracer)
    (owner : BlockId) (p : Program α) (f : α → Program β) (s : Session) :
    g.repliesToProgram above tracer owner (p.bind f) s
      = g.repliesToProgram above tracer owner p s ++
        afterwards (g.runProgram above owner p) s fun a s' =>
          g.repliesToProgram above tracer owner (f a) s' := by
  -- What comes after the first request of a program comes after the request and the rest of it.
  have later : ∀ {γ : Type} (b : Build γ) (t : Session) (rest : γ → Build α)
      (replies : γ → Session → List Reply) (next : α → Session → List Reply),
      (afterwards b t fun c t' => replies c t' ++ afterwards (rest c) t' next)
        = afterwards b t replies ++ afterwards (b >>= rest) t next := by
    intro γ b t rest replies next
    rw [afterwards_bind]
    simp only [afterwards]
    cases b.run t <;> rfl
  induction p generalizing s with
  | done a => rfl
  | read i k ih | adapt i kind k ih | isVarying i k ih =>
    simp only [Program.bind, repliesToProgram, runProgram, ih, later, List.append_assoc]
  | isConnected i k ih => exact ih _ s
  | contexts k ih => exact ih _ s
  | enter c k ih => exact ih _
  | draw k ih => exact ih _ _
  | record d k ih => exact ih _
  | kept key k ih => exact ih _ s
  | keep key v k ih => exact ih _

def repliesToAll (above : Supplier) (tracer : Tracer) : List SocketId → Session → List Reply
  | [], _ => []
  | output :: rest, s =>
    tracer.build output.block s ++
      afterwards (above.build output.block) s fun _ s' => repliesToAll above tracer rest s'

def repliesToNode (g : Graph) (above : Supplier) (tracer : Tracer) (id : BlockId) (node : Node)
    (s : Session) : List Reply :=
  repliesToAll above tracer node.peers s ++
    afterwards (buildAll above node.peers) s fun _ s' =>
      if node.missingInputs.isEmpty then
        g.repliesToProgram above tracer id (node.block.plan id node.name) s'
      else []

def repliesToBlock (g : Graph) (above : Supplier) (tracer : Tracer) (id : BlockId) (s : Session) :
    List Reply :=
  if s.built.contains id then []
  else
    match g.node? id with
    | none => []
    | some node => g.repliesToNode above tracer id node { s with built := id :: s.built }

/-- What is left to do for an output once its block is built. -/
def takeOutput (g : Graph) (above : Supplier) (output : SocketId) : Build Value := do
  match (← get).stored.lookup output with
  | none => return .null
  | some (.value v) => return v
  | some (.deferred owner program) => g.runProgram above owner program

theorem readOutputWith_eq (g : Graph) (above : Supplier) (output : SocketId) :
    g.readOutputWith above output
      = g.buildBlockWith above output.block >>= fun _ => g.takeOutput above output := rfl

def repliesToTaking (g : Graph) (above : Supplier) (tracer : Tracer) (output : SocketId)
    (s : Session) : List Reply :=
  match s.stored.lookup output with
  | some (.deferred owner program) => g.repliesToProgram above tracer owner program s
  | _ => []

/-- The reply itself comes last, after those that it needs. -/
def repliesToOutput (g : Graph) (above : Supplier) (tracer : Tracer) (output : SocketId)
    (s : Session) : List Reply :=
  g.repliesToBlock above tracer output.block s ++
    afterwards (g.buildBlockWith above output.block) s (fun _ s' =>
      g.repliesToTaking above tracer output s') ++
    afterwards (g.readOutputWith above output) s fun v s' => [⟨output, s, v, s'⟩]

def tracerWithin (g : Graph) : Nat → Tracer
  | 0 => { build := fun _ _ => [], read := fun _ _ => [] }
  | depth + 1 =>
    let above := g.supplierWithin depth
    let tracer := g.tracerWithin depth
    { build := g.repliesToBlock above tracer, read := g.repliesToOutput above tracer }

def tracer (g : Graph) : Tracer := g.tracerWithin (g.size + 1)

theorem tracer_read_of_run {g : Graph} {p : SocketId} {s s' : Session} {v : Value}
    (run : (g.supplier.read p).run s = some (v, s')) :
    ∃ needed, g.tracer.read p s = needed ++ [⟨p, s, v, s'⟩] := by
  have last : afterwards (g.supplier.read p) s (fun v s' => [⟨p, s, v, s'⟩]) = [⟨p, s, v, s'⟩] :=
    afterwards_of_run run _
  exact ⟨_, congrArg _ last⟩

/-- All that has been read in a pass: calls for blocks and outputs follow one another, with any
contexts entered, any random numbers drawn and anything reported in between. -/
inductive Transcript (g : Graph) : Session → List Reply → Prop where
  | start (config : BuildConfig) : g.Transcript (.start config) []
  | enter {s : Session} {replies : List Reply} (contexts : Contexts) :
    g.Transcript s replies → g.Transcript { s with contexts } replies
  | draw {s : Session} {replies : List Reply} (generator : Random.Generator) :
    g.Transcript s replies → g.Transcript { s with generator } replies
  | record {s : Session} {replies : List Reply} (d : Diagnostic) :
    g.Transcript s replies → g.Transcript (s.record d) replies
  | build {s s' : Session} {replies : List Reply} {id : BlockId} : g.Transcript s replies →
    (g.supplier.build id).run s = some ((), s') →
    g.Transcript s' (replies ++ g.tracer.build id s)
  | read {s s' : Session} {replies : List Reply} {p : SocketId} {v : Value} :
    g.Transcript s replies → (g.supplier.read p).run s = some (v, s') →
    g.Transcript s' (replies ++ g.tracer.read p s)

theorem Transcript.inPass {g : Graph} {s : Session} {replies : List Reply}
    (h : g.Transcript s replies) : g.InPass s := by
  induction h with
  | start config => exact .start config
  | enter contexts _ ih => exact .enter contexts ih
  | draw generator _ ih => exact .draw generator ih
  | record d _ ih => exact .record d ih
  | build _ run ih => exact .build ih run
  | read _ run ih => exact .read ih run

end Graph

/-- The reply is what a read comes to at that moment. -/
def Reply.IsRead (g : Graph) (r : Reply) : Prop :=
  (g.supplier.read r.output).run r.before = some (r.value, r.after)

namespace Program
variable {α β : Type}

/-- Nothing is kept on any path. -/
def KeepsNothing : Program α → Prop
  | done _ => True
  | read _ k => ∀ v, (k v).KeepsNothing
  | adapt _ _ k => ∀ v, (k v).KeepsNothing
  | isConnected _ k => ∀ b, (k b).KeepsNothing
  | isVarying _ k => ∀ b, (k b).KeepsNothing
  | contexts k => ∀ c, (k c).KeepsNothing
  | enter _ k => k.KeepsNothing
  | draw k => ∀ x, (k x).KeepsNothing
  | record _ k => k.KeepsNothing
  | kept _ k => ∀ v, (k v).KeepsNothing
  | keep .. => False

theorem keepsNothing_pure (a : α) : (pure a : Program α).KeepsNothing := True.intro

theorem KeepsNothing.bind {p : Program α} (h : p.KeepsNothing) {f : α → Program β}
    (h' : ∀ a, (f a).KeepsNothing) : (p >>= f).KeepsNothing := by
  induction p with
  | done a => exact h' a
  | read i k ih | adapt i kind k ih | isConnected i k ih | isVarying i k ih | contexts k ih
  | draw k ih | kept key k ih => exact fun answer => ih answer (h answer)
  | enter c k ih | record d k ih => exact ih h
  | keep key v k ih => exact h.elim

theorem Plain.keepsNothing {p : Program α} (h : p.Plain fun _ => True) : p.KeepsNothing := by
  induction p with
  | done a => exact True.intro
  | read i k ih | adapt i kind k ih | isConnected i k ih => exact fun answer => ih answer (h answer)
  | record d k ih => exact ih h.2.2
  | isVarying | contexts | enter | draw | kept | keep => exact h.elim

end Program

/-- A relation that the single steps of all blocks but one bear out. -/
structure Tolerates (g : Graph) (id : BlockId) (R : Session → List Reply → Session → Prop) : Prop where
  trans : ∀ {s s' s'' replies replies'}, R s replies s' → R s' replies' s'' →
    R s (replies ++ replies') s''
  same : ∀ {s s' : Session}, s'.stored = s.stored → s'.built = s.built → s'.kept = s.kept →
    R s [] s'
  keep : ∀ {owner} key v (s : Session), owner ≠ id →
    R s [] { s with kept := s.kept.insert (owner, key) v }
  visit : ∀ {b} (s : Session), b ≠ id → R s [] { s with built := b :: s.built }
  storing : ∀ {b} outputs (s : Session), b ≠ id → R s [] (s.storing b outputs)
  reply : ∀ {r : Reply}, r.IsRead g → r.output.block ≠ id → R r.after [r] r.after

/-- A supplier and its tracer bear out a relation, for blocks of a sort. -/
structure Supplier.Tells (g : Graph) (above : Supplier) (tracer : Tracer)
    (R : Session → List Reply → Session → Prop) (low : BlockId → Prop) : Prop where
  build : ∀ {b} {s : Session}, low b → s.Sound .trivial g →
    IfEnds (above.build b) s fun _ s' => R s (tracer.build b s) s'
  read : ∀ {p} {s : Session}, low p.block → s.Sound .trivial g →
    IfEnds (above.read p) s fun _ s' => R s (tracer.read p s) s'

section
variable {g : Graph} {id : BlockId} {R : Session → List Reply → Session → Prop}
variable {above : Supplier} {tracer : Tracer} {low : BlockId → Prop} {n : Nat} {s : Session}

namespace Tolerates
variable {α β : Type}

theorem refl (tolerates : Tolerates g id R) (s : Session) : R s [] s := tolerates.same rfl rfl rfl

theorem ifEnds_bind (tolerates : Tolerates g id R) {b : Build α} {f : α → Build β}
    {replies : List Reply} {next : α → Session → List Reply}
    (first : IfEnds b s fun _ s' => R s replies s')
    (second : ∀ a s', b.run s = some (a, s') → IfEnds (f a) s' fun _ s'' => R s' (next a s') s'') :
    IfEnds (b >>= f) s fun _ s'' => R s (replies ++ afterwards b s next) s'' := by
  rw [MeshFlow.ifEnds_bind]
  intro a s' run
  rw [afterwards_of_run run]
  exact (second a s' run).mono fun _ _ told => tolerates.trans (first a s' run) told

theorem then_ifEnds (tolerates : Tolerates g id R) {b : Build α} {s' : Session} {replies : List Reply}
    (step : R s [] s') (next : IfEnds b s' fun _ s'' => R s' replies s'') :
    IfEnds b s' fun _ s'' => R s replies s'' :=
  next.mono fun _ _ told => tolerates.trans step told

end Tolerates

namespace Supplier.Tells

theorem readInput (tells : above.Tells g tracer R low) (tolerates : Tolerates g id R) {p : SocketId}
    (feeders : ∀ o, g.peer? p = some o → low o.block) (sound : s.Sound .trivial g) :
    IfEnds (g.readInput above p) s fun _ s' => R s (g.repliesToInput tracer p s) s' := by
  unfold Graph.readInput Graph.repliesToInput
  unfold Graph.peer? at feeders ⊢
  cases hs : g.socket? p with
  | none => exact (ifEnds_pure ..).2 (tolerates.refl s)
  | some socket =>
    cases peer : socket.peer with
    | none =>
      simp only [peer, Option.bind_some]
      exact (ifEnds_pure ..).2 (tolerates.refl s)
    | some o =>
      simp only [peer, Option.bind_some]
      exact tells.read (feeders o (by rw [hs]; exact peer)) sound

theorem adaptInput (tells : above.Tells g tracer R low) (tolerates : Tolerates g id R) {p : SocketId}
    (feeders : ∀ o, g.peer? p = some o → low o.block) (kind : Kind) (sound : s.Sound .trivial g) :
    IfEnds (g.adaptInput above p kind) s fun _ s' => R s (g.repliesToInput tracer p s) s' := by
  rw [Graph.adaptInput, MeshFlow.ifEnds_bind]
  refine (tells.readInput tolerates feeders sound).mono fun v s' told => ?_
  split
  · exact (ifEnds_pure ..).2 told
  · split
    · simp only [MeshFlow.ifEnds_bind, ifEnds_modify, ifEnds_pure]
      have noted : R s' [] (s'.record (.typeMismatch p.block
          (((g.socket? p).map (·.spec.name)).getD "") kind v.kind?)) :=
        tolerates.same (s'.unbuilt_record _).stored (s'.unbuilt_record _).built (s'.kept_record _)
      simpa using tolerates.trans told noted
    · exact (ifEnds_pure ..).2 told

theorem isVarying (tells : above.Tells g tracer R low) (tolerates : Tolerates g id R) {p : SocketId}
    (feeders : ∀ o, g.peer? p = some o → low o.block) (sound : s.Sound .trivial g) :
    IfEnds (g.isVarying above p) s fun _ s' => R s (g.repliesToVarying tracer p s) s' := by
  unfold Graph.isVarying Graph.repliesToVarying
  cases peer : g.peer? p with
  | none => exact (ifEnds_pure ..).2 (tolerates.refl s)
  | some o =>
    simp only [MeshFlow.ifEnds_bind, ifEnds_get, ifEnds_pure]
    exact tells.build (feeders o peer) sound

theorem runProgram {α : Type} (tells : above.Tells g tracer R low) (tolerates : Tolerates g id R)
    {owner : BlockId} {A : Answers} (runs : g.Runs above owner A (fun _ => True) (·.Sound .trivial g))
    (feeders : ∀ i o, g.peer? (.input owner i) = some o → low o.block)
    (allowed : ∀ key v, A.kept key v) (program : Program α)
    (other : owner ≠ id ∨ program.KeepsNothing) (sound : s.Sound .trivial g) :
    IfEnds (g.runProgram above owner program) s fun _ s' =>
      R s (g.repliesToProgram above tracer owner program s) s' := by
  induction program generalizing s with
  | done a => exact (ifEnds_pure ..).2 (tolerates.refl s)
  | read i k ih =>
    rw [Graph.runProgram, Graph.repliesToProgram]
    refine tolerates.ifEnds_bind (tells.readInput tolerates (feeders i) sound) fun v s' run => ?_
    exact ih v (other.imp_right (· v)) ((runs.read i s sound).of_run run).1
  | adapt i kind k ih =>
    rw [Graph.runProgram, Graph.repliesToProgram]
    refine tolerates.ifEnds_bind (tells.adaptInput tolerates (feeders i) kind sound)
      fun v s' run => ?_
    exact ih v (other.imp_right (· v)) ((runs.adaptInput i kind sound).of_run run).1
  | isConnected i k ih => exact ih _ (other.imp_right (· _)) sound
  | isVarying i k ih =>
    rw [Graph.runProgram, Graph.repliesToProgram]
    refine tolerates.ifEnds_bind (tells.isVarying tolerates (feeders i) sound) fun b s' run => ?_
    exact ih b (other.imp_right (· b)) ((runs.varying i s sound).of_run run).1
  | contexts k ih | kept key k ih =>
    simp only [Graph.runProgram, MeshFlow.ifEnds_bind, ifEnds_get]
    exact ih _ (other.imp_right (· _)) sound
  | enter c k ih =>
    simp only [Graph.runProgram, MeshFlow.ifEnds_bind, ifEnds_modify]
    exact tolerates.then_ifEnds (tolerates.same rfl rfl rfl) (ih other (runs.enter c s sound))
  | draw k ih =>
    simp only [Graph.runProgram, MeshFlow.ifEnds_bind, ifEnds_get, ifEnds_modify]
    exact tolerates.then_ifEnds (tolerates.same rfl rfl rfl)
      (ih _ (other.imp_right (· _)) (runs.draw _ s sound))
  | record d k ih =>
    simp only [Graph.runProgram, MeshFlow.ifEnds_bind, ifEnds_modify]
    have sound' := runs.record d s (d.within_of_all fun _ => True.intro) sound
    exact tolerates.then_ifEnds (tolerates.same (s.unbuilt_record d).stored
      (s.unbuilt_record d).built (s.kept_record d)) (ih other sound')
  | keep key v k ih =>
    simp only [Graph.runProgram, MeshFlow.ifEnds_bind, ifEnds_modify]
    have foreign := other.resolve_right fun keeps => keeps
    exact tolerates.then_ifEnds (tolerates.keep key v s foreign)
      (ih (.inl foreign) (runs.keep key v s sound (allowed key v)))

theorem buildAll (tells : above.Tells g tracer R low) (tolerates : Tolerates g id R)
    (serves : above.Serves .trivial g n) (bound : ∀ b, low b → g.height b < n)
    (outputs : List SocketId) (feeders : ∀ o ∈ outputs, low o.block) (sound : s.Sound .trivial g) :
    IfEnds (Graph.buildAll above outputs) s fun _ s' =>
      R s (Graph.repliesToAll above tracer outputs s) s' := by
  induction outputs generalizing s with
  | nil => exact (ifEnds_pure ..).2 (tolerates.refl s)
  | cons o rest ih =>
    have first := feeders o (List.mem_cons_self ..)
    rw [Graph.buildAll, Graph.repliesToAll]
    refine tolerates.ifEnds_bind (tells.build first sound) fun _ s' run => ?_
    exact ih (fun p mem => feeders p (List.mem_cons_of_mem _ mem))
      ((serves.build _ s (bound _ first) sound).of_run run).sound

theorem buildNode (tells : above.Tells g tracer R low) (tolerates : Tolerates g id R)
    (serves : above.Serves .trivial g n) (bound : ∀ b, low b → g.height b < n) {b : BlockId}
    {node : Node} (hn : g.node? b = some node) (wired : g.Wired) (feeders : ∀ a, g.Feeds a b → low a)
    (other : b ≠ id) (sound : s.Sound .trivial g) :
    IfEnds (g.buildNode above b node) s fun _ s' =>
      R s (g.repliesToNode above tracer b node s) s' := by
  have peers : ∀ o ∈ node.peers, low o.block := fun o mem =>
    feeders _ ((Graph.feeds_iff ..).2 ⟨node, hn, o, mem, rfl⟩)
  have inputs : ∀ i o, g.peer? (.input b i) = some o → low o.block := fun i o peer =>
    feeders _ (wired.feeds_of_peer? peer)
  rw [Graph.buildNode, Graph.repliesToNode]
  refine tolerates.ifEnds_bind (tells.buildAll tolerates serves bound node.peers peers sound)
    fun _ t run => ?_
  have keeps := (serves.buildAll node.peers (fun o mem => bound _ (peers o mem)) sound).of_run run
  split
  · simp only [keepingContexts, MeshFlow.ifEnds_bind, ifEnds_get, ifEnds_modify, ifEnds_pure]
    have runs := serves.runs fun i o (peer : g.peer? (.input b i) = some o) =>
      bound _ (inputs i o peer)
    refine (tells.runProgram tolerates runs inputs (fun _ _ => True.intro) _ (.inl other)
      keeps.sound).mono fun plan t' told => ?_
    rw [Session.follow_eq]
    have left : R t' [] { t' with contexts := t.contexts } := tolerates.same rfl rfl rfl
    have stored := tolerates.trans left (tolerates.storing plan.outputs _ other)
    have finished : R (.storing { t' with contexts := t.contexts } b plan.outputs) []
        { Session.storing { t' with contexts := t.contexts } b plan.outputs with
          result := plan.result <|> t'.result } := tolerates.same rfl rfl rfl
    have handed := tolerates.trans stored finished
    simpa using tolerates.trans told handed
  · rw [ifEnds_modify, Session.storeNulls_eq]
    obtain ⟨unbuilt, kept, -⟩ :=
      Session.foldl_record (fun p => .unconnectedInput b node.name p.spec.name) node.missingInputs t
    have noted := tolerates.same unbuilt.stored unbuilt.built kept
    exact tolerates.trans noted (tolerates.storing _ _ other)

end Supplier.Tells

namespace Tolerates
variable {b : BlockId}

theorem buildBlockWith (tolerates : Tolerates g id R) (wired : g.Wired)
    (tells : above.Tells g tracer R low) (serves : above.Serves .trivial g n)
    (bound : ∀ b, low b → g.height b < n) (feeders : ∀ a, g.Feeds a b → low a) (other : b ≠ id)
    (sound : s.Sound .trivial g) :
    IfEnds (g.buildBlockWith above b) s fun _ s' =>
      R s (g.repliesToBlock above tracer b s) s' := by
  simp only [Graph.buildBlockWith, Graph.repliesToBlock, MeshFlow.ifEnds_bind, ifEnds_get]
  split
  · exact (ifEnds_pure ..).2 (tolerates.refl s)
  · have visited := tolerates.visit s other
    have noted : Session.Sound .trivial g { s with built := b :: s.built } :=
      sound.of_same rfl rfl rfl
    rw [MeshFlow.ifEnds_bind, ifEnds_modify]
    cases hn : g.node? b with
    | none => exact (ifEnds_pure ..).2 visited
    | some node =>
      exact tolerates.then_ifEnds visited
        (tells.buildNode tolerates serves bound hn wired feeders other noted)

theorem takeOutput (tolerates : Tolerates g id R) (tells : above.Tells g tracer R low)
    (serves : above.Serves .trivial g n) (bound : ∀ b, low b → g.height b < n) {p : SocketId}
    (feeders : ∀ i o, g.peer? (.input p.block i) = some o → low o.block) (other : p.block ≠ id)
    (sound : s.Sound .trivial g) :
    IfEnds (g.takeOutput above p) s fun _ s' => R s (g.repliesToTaking above tracer p s) s' := by
  simp only [Graph.takeOutput, Graph.repliesToTaking, MeshFlow.ifEnds_bind, ifEnds_get]
  cases found : s.stored.lookup p with
  | none => exact (ifEnds_pure ..).2 (tolerates.refl s)
  | some x =>
    cases x with
    | value v => exact (ifEnds_pure ..).2 (tolerates.refl s)
    | deferred owner program =>
      obtain ⟨rfl, -⟩ := sound.stored p _ found
      have runs := serves.runs fun i o (peer : g.peer? (.input p.block i) = some o) =>
        bound _ (feeders i o peer)
      exact tells.runProgram tolerates runs feeders (fun _ _ => True.intro) program (.inl other)
        sound

theorem tells (tolerates : Tolerates g id R) (wired : g.Wired) (acyclic : g.Acyclic)
    {sort : BlockId → Prop} (closed : ∀ a b, g.Feeds a b → sort b → sort a)
    (own : sort id → ∀ n ≤ g.size, g.height id ≤ n →
      (g.supplierWithin (n + 1)).Tells g (g.tracerWithin (n + 1)) R (· = id)) {n : Nat}
    (le : n ≤ g.size + 1) :
    (g.supplierWithin n).Tells g (g.tracerWithin n) R fun b => sort b ∧ g.height b < n := by
  induction n with
  | zero => exact ⟨fun low => absurd low.2 (Nat.not_lt_zero _),
      fun low => absurd low.2 (Nat.not_lt_zero _)⟩
  | succ n ih =>
    have tells := ih (Nat.le_of_succ_le le)
    have serves := Graph.supplierWithin_serves (Facts.trivial_lasting g) wired acyclic n
    have serves' := Graph.supplierWithin_serves (Facts.trivial_lasting g) wired acyclic (n + 1)
    have own' := fun ok => own ok n (Nat.le_of_succ_le_succ le)
    have feeders : ∀ b, sort b → g.height b < n + 1 → ∀ a, g.Feeds a b →
        sort a ∧ g.height a < n := fun b ok low a feeds =>
      ⟨closed a b feeds ok,
        Nat.lt_of_lt_of_le (acyclic.height_lt feeds) (Nat.le_of_lt_succ low)⟩
    constructor
    · rintro b s ⟨ok, low⟩ sound
      by_cases other : b = id
      · subst other
        exact (own' ok (Nat.le_of_lt_succ low)).build rfl sound
      · exact tolerates.buildBlockWith wired tells serves (fun _ both => both.2)
          (feeders b ok low) other sound
    · rintro p s ⟨ok, low⟩ sound
      by_cases other : p.block = id
      · subst other
        exact (own' ok (Nat.le_of_lt_succ low)).read rfl sound
      · intro v s' run
        have built : IfEnds (g.readOutputWith (g.supplierWithin n) p) s fun _ s' =>
            R s (g.repliesToBlock (g.supplierWithin n) (g.tracerWithin n) p.block s ++
              afterwards (g.buildBlockWith (g.supplierWithin n) p.block) s (fun _ t =>
                g.repliesToTaking (g.supplierWithin n) (g.tracerWithin n) p t)) s' := by
          refine tolerates.ifEnds_bind (tolerates.buildBlockWith wired tells serves
            (fun _ both => both.2) (feeders p.block ok low) other sound) fun _ t built => ?_
          exact tolerates.takeOutput tells serves (fun _ both => both.2)
            (fun i o peer => feeders p.block ok low _ (wired.feeds_of_peer? peer)) other
            ((serves'.build _ s low sound).of_run built).1
        have isRead : Reply.IsRead g ⟨p, s, v, s'⟩ :=
          (g.supplierWithin_refines le).read p s _ run
        have told := tolerates.trans (built v s' run) (tolerates.reply isRead other)
        change R s (g.repliesToOutput _ _ p s) s'
        rwa [Graph.repliesToOutput, afterwards_of_run (b := g.readOutputWith _ p) run]

end Tolerates

end

end MeshFlow
