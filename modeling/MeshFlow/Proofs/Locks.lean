import MeshFlow.Proofs.Tracing

set_option autoImplicit false

/-!
# Locked random numbers

A locked random block keeps what it draws under a key that it takes from the contexts. What it will
answer under a key is known once it has answered under it, and nothing that happens in the pass
changes that: other blocks leave the block alone, and the block itself only ever adds keys. So of
two reads under one key the later comes to the value of the earlier one, and comes to it without
asking anything of the blocks above, drawing a random number, or changing the session.
-/
namespace MeshFlow

/-- The key under which a value is kept, where there is one. -/
def Lock.key? (lock : Lock) (c : Contexts) : Option Int :=
  match lock with
  | .none => .none
  | .once => some 0
  | .loopId => c.execution.map fun step => (Int32.ofInt step.loopIndex).toInt
  | .instanceId => c.instancing.map fun instancing => (Int32.ofInt instancing.index).toInt

namespace Block
open Program

theorem keepsNothing_drawComponents (kind : Kind) (ranges : List (Float32 × Float32)) :
    (drawComponents kind ranges).KeepsNothing := by
  induction ranges with
  | nil => exact keepsNothing_pure _
  | cons range rest ih =>
    have unit : uniform.KeepsNothing := fun _ => True.intro
    exact unit.bind fun _ => ih.bind fun _ => keepsNothing_pure _

theorem keepsNothing_freshRandom : freshRandom.KeepsNothing := by
  refine (plain_value 0).keepsNothing.bind fun low => ?_
  cases low.kind? with
  | none => exact keepsNothing_pure _
  | some kind =>
    dsimp only
    split
    · exact keepsNothing_pure _
    · refine (plain_adapted 1 kind).keepsNothing.bind fun high => ?_
      split
      · exact (keepsNothing_drawComponents kind _).bind fun _ => keepsNothing_pure _
      · exact keepsNothing_pure _

/-- What a random block does under given contexts, once it has looked for its key. -/
def randomFor (lock : Lock) (c : Contexts) : Program Value :=
  match lock.key? c with
  | some key => keptRandom key
  | none => freshRandom

def ask (source : ContextualSource) (s : Session) : Session :=
  if (s.contexts.lookup source).isNull then s.record (.missingContextualData source) else s

def consult (lock : Lock) (s : Session) : Session :=
  match lock with
  | .none | .once => s
  | .loopId => ask .loopId s
  | .instanceId => ask .instanceId s

theorem lookup_loopId (c : Contexts) :
    c.lookup .loopId
      = ((c.execution.map fun step => Int32.ofInt step.loopIndex).map .int).getD .null := by
  cases h : c.execution <;> simp [Contexts.lookup, Contexts.ofStep, Value.ofNat, h]

theorem lookup_instanceId (c : Contexts) :
    c.lookup .instanceId
      = ((c.instancing.map fun i => Int32.ofInt i.index).map .int).getD .null := by
  cases h : c.instancing <;> simp [Contexts.lookup, Value.ofNat, h]

theorem consult_of_key? {lock : Lock} {s : Session} {key : Int}
    (h : lock.key? s.contexts = some key) : consult lock s = s := by
  cases lock with
  | none | once => rfl
  | loopId =>
    obtain ⟨step, found, -⟩ := Option.map_eq_some_iff.1 h
    simp [consult, ask, lookup_loopId, found, Value.isNull]
  | instanceId =>
    obtain ⟨instancing, found, -⟩ := Option.map_eq_some_iff.1 h
    simp [consult, ask, lookup_instanceId, found, Value.isNull]

theorem consult_same (lock : Lock) (s : Session) :
    (consult lock s).stored = s.stored ∧ (consult lock s).built = s.built ∧
      (consult lock s).kept = s.kept ∧ (consult lock s).result = s.result := by
  have asked : ∀ source, (ask source s).stored = s.stored ∧ (ask source s).built = s.built ∧
      (ask source s).kept = s.kept ∧ (ask source s).result = s.result := by
    intro source
    rw [ask]
    split
    · obtain ⟨stored, built, result⟩ := s.unbuilt_record (.missingContextualData source)
      exact ⟨stored, built, s.kept_record _, result⟩
    · exact ⟨rfl, rfl, rfl, rfl⟩
  cases lock with
  | none | once => exact ⟨rfl, rfl, rfl, rfl⟩
  | loopId | instanceId => exact asked _

theorem keptFor_lookup_loopId (c : Contexts) :
    randomProgram.keptFor (c.lookup .loopId) = randomFor .loopId c := by
  cases h : c.execution <;> simp [lookup_loopId, randomFor, Lock.key?, h, randomProgram.keptFor]

theorem keptFor_lookup_instanceId (c : Contexts) :
    randomProgram.keptFor (c.lookup .instanceId) = randomFor .instanceId c := by
  cases h : c.instancing <;>
    simp [lookup_instanceId, randomFor, Lock.key?, h, randomProgram.keptFor]

section
variable (g : Graph) (above : Supplier) (owner : BlockId) (lock : Lock) (s : Session)

theorem run_contextual (source : ContextualSource) (f : Value → Program Value) :
    (g.runProgram above owner (contextual source >>= f)).run s
      = (g.runProgram above owner (f (s.contexts.lookup source))).run (ask source s) := by
  change (g.runProgram above owner (Program.bind (do
    if (s.contexts.lookup source).isNull then report (.missingContextualData source)
    return s.contexts.lookup source) f)).run s = _
  rw [ask]
  split <;> rfl

theorem repliesTo_contextual (tracer : Tracer) (source : ContextualSource)
    (f : Value → Program Value) :
    g.repliesToProgram above tracer owner (contextual source >>= f) s
      = g.repliesToProgram above tracer owner (f (s.contexts.lookup source)) (ask source s) := by
  change g.repliesToProgram above tracer owner (Program.bind (do
    if (s.contexts.lookup source).isNull then report (.missingContextualData source)
    return s.contexts.lookup source) f) s = _
  rw [ask]
  split <;> rfl

theorem run_randomProgram :
    (g.runProgram above owner (randomProgram lock)).run s
      = (g.runProgram above owner (randomFor lock s.contexts)).run (consult lock s) := by
  cases lock with
  | none | once => rfl
  | loopId => exact (run_contextual ..).trans (by rw [keptFor_lookup_loopId]; rfl)
  | instanceId => exact (run_contextual ..).trans (by rw [keptFor_lookup_instanceId]; rfl)

theorem repliesTo_randomProgram (tracer : Tracer) :
    g.repliesToProgram above tracer owner (randomProgram lock) s
      = g.repliesToProgram above tracer owner (randomFor lock s.contexts) (consult lock s) := by
  cases lock with
  | none | once => rfl
  | loopId => exact (repliesTo_contextual ..).trans (by rw [keptFor_lookup_loopId]; rfl)
  | instanceId => exact (repliesTo_contextual ..).trans (by rw [keptFor_lookup_instanceId]; rfl)

variable {g above owner s} {key : Int} {v : Value}

/-- What is left to do once the block knows whether it has kept a value. -/
def recallOr (key : Int) : Option Value → Program Value
  | some v => pure v
  | none => freshRandom >>= fun v => .keep key v (.done v)

theorem keptRandom_eq (key : Int) : keptRandom key = .kept key (recallOr key) := rfl

theorem run_keptRandom_of_some (kept : s.kept[(owner, key)]? = some v) :
    (g.runProgram above owner (keptRandom key)).run s = some (v, s) ∧
      ∀ tracer, g.repliesToProgram above tracer owner (keptRandom key) s = [] := by
  have run : (g.runProgram above owner (.kept key (recallOr key))).run s
      = (g.runProgram above owner (recallOr key s.kept[(owner, key)]?)).run s := rfl
  refine ⟨?_, fun tracer => ?_⟩
  · rw [keptRandom_eq, run, kept]
    rfl
  · rw [keptRandom_eq, Graph.repliesToProgram, kept]
    rfl

theorem run_keptRandom_of_none {s' : Session} (unknown : s.kept[(owner, key)]? = none)
    (run : (g.runProgram above owner (keptRandom key)).run s = some (v, s')) :
    ∃ t, (g.runProgram above owner freshRandom).run s = some (v, t) ∧
      s' = { t with kept := t.kept.insert (owner, key) v } ∧
      ∀ tracer, g.repliesToProgram above tracer owner (keptRandom key) s
        = g.repliesToProgram above tracer owner freshRandom s := by
  let keep (v : Value) : Program Value := .keep key v (.done v)
  have runs : (g.runProgram above owner (.kept key (recallOr key))).run s
      = (g.runProgram above owner (recallOr key s.kept[(owner, key)]?)).run s := rfl
  have drawing : recallOr key none = freshRandom.bind keep := rfl
  rw [keptRandom_eq, runs, unknown, drawing, Graph.runProgram_bind] at run
  simp only [StateT.run_bind, Option.bind_eq_bind, Option.bind_eq_some_iff] at run
  obtain ⟨⟨w, t⟩, drawn, rest⟩ := run
  cases rest
  refine ⟨t, drawn, rfl, fun tracer => ?_⟩
  rw [keptRandom_eq, Graph.repliesToProgram, unknown, drawing, Graph.repliesToProgram_bind,
    afterwards_of_run drawn]
  exact List.append_nil _

end
end Block

/-- Nothing that a block has to answer from has changed, and none of the replies is its own. -/
structure LeavesAlone (g : Graph) (id : BlockId) (s : Session) (replies : List Reply)
    (s' : Session) : Prop where
  stored : ∀ p : SocketId, p.block = id → s'.stored.lookup p = s.stored.lookup p
  built : id ∈ s'.built ↔ id ∈ s.built
  kept : ∀ key : Int, s'.kept[(id, key)]? = s.kept[(id, key)]?
  reads : ∀ r ∈ replies, r.IsRead g
  others : ∀ r ∈ replies, r.output.block ≠ id

theorem Session.lookup_storing_of_ne {s : Session} {b : BlockId} {p : SocketId} (ne : p.block ≠ b)
    (outputs : List (Nat × Supply)) : (s.storing b outputs).stored.lookup p = s.stored.lookup p := by
  have absent : (outputs.map fun e => (SocketId.output b e.1, e.2.stored b)).reverse.lookup p
      = none := by
    rw [List.lookup_eq_none_iff]
    intro entry mem
    obtain ⟨e, -, rfl⟩ := List.mem_map.1 (List.mem_reverse.1 mem)
    rw [bne_iff_ne]
    rintro rfl
    exact ne rfl
  rw [Session.storing, List.lookup_append, absent, Option.none_or]

section
variable {g : Graph} {id : BlockId} {lock : Lock} {s s' s'' t t' : Session}
variable {replies replies' : List Reply} {n : Nat} {p : SocketId}

theorem LeavesAlone.of_same (stored : s'.stored = s.stored) (built : s'.built = s.built)
    (kept : s'.kept = s.kept) : LeavesAlone g id s [] s' where
  stored p _ := by rw [stored]
  built := by rw [built]
  kept key := by rw [kept]
  reads := fun _ mem => (List.not_mem_nil mem).elim
  others := fun _ mem => (List.not_mem_nil mem).elim

theorem LeavesAlone.trans (h : LeavesAlone g id s replies s') (h' : LeavesAlone g id s' replies' s'') :
    LeavesAlone g id s (replies ++ replies') s'' where
  stored p own := (h'.stored p own).trans (h.stored p own)
  built := h'.built.trans h.built
  kept key := (h'.kept key).trans (h.kept key)
  reads r mem := (List.mem_append.1 mem).elim (h.reads r) (h'.reads r)
  others r mem := (List.mem_append.1 mem).elim (h.others r) (h'.others r)

theorem LeavesAlone.tolerates (g : Graph) (id : BlockId) : Tolerates g id (LeavesAlone g id) where
  trans := .trans
  same := .of_same
  keep key v s foreign := by
    refine ⟨fun _ _ => rfl, .rfl, fun key' => ?_, fun _ mem => (List.not_mem_nil mem).elim,
      fun _ mem => (List.not_mem_nil mem).elim⟩
    rw [Std.HashMap.getElem?_insert, if_neg]
    simp [foreign]
  visit s foreign := by
    refine ⟨fun _ _ => rfl, ?_, fun _ => rfl, fun _ mem => (List.not_mem_nil mem).elim,
      fun _ mem => (List.not_mem_nil mem).elim⟩
    simp [foreign.symm]
  storing outputs s foreign :=
    ⟨fun p own => Session.lookup_storing_of_ne (own ▸ foreign.symm) outputs, .rfl, fun _ => rfl,
      fun _ mem => (List.not_mem_nil mem).elim, fun _ mem => (List.not_mem_nil mem).elim⟩
  reply isRead foreign :=
    ⟨fun _ _ => rfl, .rfl, fun _ => rfl, by simpa using isRead, by simpa using foreign⟩

theorem Graph.Acyclic.leavesAlone (acyclic : g.Acyclic) (wired : g.Wired) (id : BlockId)
    (le : n ≤ g.size + 1) :
    (g.supplierWithin n).Tells g (g.tracerWithin n) (LeavesAlone g id)
      fun b => g.height b < g.height id ∧ g.height b < n :=
  (LeavesAlone.tolerates g id).tells wired acyclic
    (fun _ _ feeds low => (acyclic.height_lt feeds).trans low)
    (fun low => absurd low (Nat.lt_irrefl _)) le

def Session.answer? (s : Session) (p : SocketId) (key : Int) : Option Value :=
  match s.stored.lookup p with
  | some (.value v) => some v
  | some (.deferred owner _) => s.kept[(owner, key)]?
  | none => if p.block ∈ s.built then some .null else none

/-- Nothing is stored of a block but its random program, and that only once it has been visited. -/
structure Session.Fit (id : BlockId) (lock : Lock) (s : Session) : Prop where
  unvisited : id ∉ s.built → ∀ p : SocketId, p.block = id → s.stored.lookup p = none
  program : ∀ p owner program, p.block = id → s.stored.lookup p = some (.deferred owner program) →
    owner = id ∧ program = Block.randomProgram lock

/-- The reply changes nothing, and nothing is asked of the blocks above for it. -/
def Reply.Recalls (g : Graph) (r : Reply) : Prop :=
  r.after = r.before ∧
    ∀ above, (g.readOutputWith above r.output).run r.before = some (r.value, r.before)

/-- Under the key of an earlier reply the later one recalls its value. -/
def Reply.Locks (g : Graph) (id : BlockId) (lock : Lock) (first later : Reply) : Prop :=
  first.output.block = id → later.output = first.output →
    ∀ key, lock.key? first.before.contexts = some key →
      lock.key? later.before.contexts = some key →
        later.value = first.value ∧ later.Recalls g

/-- The block sticks to what it has answered. -/
structure Sticks (g : Graph) (id : BlockId) (lock : Lock) (s : Session) (replies : List Reply)
    (s' : Session) : Prop where
  fit : s'.Fit id lock
  lasts : ∀ p key v, p.block = id → s.answer? p key = some v → s'.answer? p key = some v
  reads : ∀ r ∈ replies, r.IsRead g
  recalled : ∀ r ∈ replies, r.output.block = id → ∀ key, lock.key? r.before.contexts = some key →
    ∀ v, s.answer? r.output key = some v → r.value = v ∧ r.Recalls g
  given : ∀ r ∈ replies, r.output.block = id → ∀ key, lock.key? r.before.contexts = some key →
    s'.answer? r.output key = some r.value
  pairs : replies.Pairwise (Reply.Locks g id lock)

theorem LeavesAlone.answer? (h : LeavesAlone g id s replies s') (fit : s.Fit id lock)
    (own : p.block = id) (key : Int) : s'.answer? p key = s.answer? p key := by
  subst own
  unfold Session.answer?
  rw [h.stored p rfl]
  cases found : s.stored.lookup p with
  | none => simp only [h.built]
  | some x =>
    cases x with
    | value v => rfl
    | deferred owner program =>
      obtain ⟨rfl, -⟩ := fit.program p owner program rfl found
      exact h.kept key

theorem LeavesAlone.fit (h : LeavesAlone g id s replies s') (fit : s.Fit id lock) :
    s'.Fit id lock where
  unvisited fresh p own := by
    rw [h.stored p own]
    exact fit.unvisited (fun built => fresh (h.built.2 built)) p own
  program p owner program own found := fit.program p owner program own (h.stored p own ▸ found)

theorem LeavesAlone.sticks (h : LeavesAlone g id s replies s') (fit : s.Fit id lock) :
    Sticks g id lock s replies s' where
  fit := h.fit fit
  lasts p key v own found := by rw [h.answer? fit own, found]
  reads := h.reads
  recalled r mem own := absurd own (h.others r mem)
  given r mem own := absurd own (h.others r mem)
  pairs := List.pairwise_of_forall_mem_list fun r mem _ _ own => absurd own (h.others r mem)

theorem Sticks.trans (h : Sticks g id lock s replies s') (h' : Sticks g id lock s' replies' s'') :
    Sticks g id lock s (replies ++ replies') s'' where
  fit := h'.fit
  lasts p key v own found := h'.lasts p key v own (h.lasts p key v own found)
  reads r mem := (List.mem_append.1 mem).elim (h.reads r) (h'.reads r)
  recalled r mem own key found v answered := by
    rcases List.mem_append.1 mem with early | late
    · exact h.recalled r early own key found v answered
    · exact h'.recalled r late own key found v (h.lasts _ key v own answered)
  given r mem own key found := by
    rcases List.mem_append.1 mem with early | late
    · exact h'.lasts _ key _ own (h.given r early own key found)
    · exact h'.given r late own key found
  pairs := by
    refine List.pairwise_append.2 ⟨h.pairs, h'.pairs, ?_⟩
    intro first early later late own same key found found'
    have answered := h.given first early own key found
    rw [← same] at own answered
    exact h'.recalled later late own key found' _ answered

theorem Sticks.tolerates (g : Graph) (id : BlockId) (lock : Lock) :
    Tolerates g id fun s replies s' => s.Fit id lock → Sticks g id lock s replies s' where
  trans h h' fit := (h fit).trans (h' (h fit).fit)
  same stored built kept := (LeavesAlone.of_same stored built kept).sticks
  keep key v s foreign := ((LeavesAlone.tolerates g id).keep key v s foreign).sticks
  visit s foreign := ((LeavesAlone.tolerates g id).visit s foreign).sticks
  storing outputs s foreign := ((LeavesAlone.tolerates g id).storing outputs s foreign).sticks
  reply isRead foreign := ((LeavesAlone.tolerates g id).reply isRead foreign).sticks

theorem Session.Fit.answer?_unvisited (fit : s.Fit id lock) (fresh : id ∉ s.built)
    (own : p.block = id) (key : Int) : s.answer? p key = none := by
  rw [Session.answer?, fit.unvisited fresh p own]
  exact if_neg (own ▸ fresh)

/-- The block is visited, if it has not been. -/
structure Visits (g : Graph) (id : BlockId) (lock : Lock) (s : Session) (replies : List Reply)
    (s' : Session) : Prop where
  fit : s'.Fit id lock
  reads : ∀ r ∈ replies, r.IsRead g
  others : ∀ r ∈ replies, r.output.block ≠ id
  built : id ∈ s'.built
  again : id ∈ s.built → s' = s

theorem Visits.sticks (h : Visits g id lock s replies s') (fit : s.Fit id lock) :
    Sticks g id lock s replies s' where
  fit := h.fit
  lasts p key v own found := by
    by_cases built : id ∈ s.built
    · rwa [h.again built]
    · rw [fit.answer?_unvisited built own] at found
      cases found
  reads := h.reads
  recalled r mem own := absurd own (h.others r mem)
  given r mem own := absurd own (h.others r mem)
  pairs := List.pairwise_of_forall_mem_list fun r mem _ _ own => absurd own (h.others r mem)

theorem Session.Fit.storing (fresh : ∀ p : SocketId, p.block = id → s.stored.lookup p = none)
    (built : id ∈ s.built) {outputs : List (Nat × Supply)}
    (supplies : ∀ e ∈ outputs, ∀ program, e.2 = .onRead program → program = Block.randomProgram lock) :
    (s.storing id outputs).Fit id lock where
  unvisited fresh := absurd built fresh
  program p owner program own found := by
    rcases Session.lookup_storing found with ⟨⟨index, supply⟩, mem, rfl, same⟩ | old
    · cases supply with
      | value v => cases same
      | onRead program' =>
        cases same
        exact ⟨rfl, supplies _ mem _ rfl⟩
    · rw [fresh p own] at old
      cases old

theorem fit_completeNode {node : Node} {above : Supplier} (random : node.block = .random lock)
    (nothing : ∀ p : SocketId, p.block = id → t.stored.lookup p = none) (built : id ∈ t.built) :
    IfEnds (g.completeNode above id node) t fun _ s' => s'.Fit id lock ∧ id ∈ s'.built := by
  unfold Graph.completeNode
  split
  · simp only [keepingContexts, ifEnds_bind, ifEnds_get, ifEnds_modify, ifEnds_pure]
    rw [random]
    refine (ifEnds_pure ..).2 ?_
    rw [Session.follow_eq]
    refine ⟨Session.Fit.storing nothing built fun e mem program same => ?_, built⟩
    rw [List.mem_singleton.1 mem] at same
    cases same
    rfl
  · rw [ifEnds_modify, Session.storeNulls_eq]
    obtain ⟨unbuilt, -, -⟩ :=
      Session.foldl_record (fun p => .unconnectedInput id node.name p.spec.name)
        node.missingInputs t
    refine ⟨Session.Fit.storing (fun p own => ?_) (unbuilt.built ▸ built) ?_,
      unbuilt.built ▸ built⟩
    · rw [unbuilt.stored]
      exact nothing p own
    · intro e mem program same
      obtain ⟨index, -, rfl⟩ := List.mem_map.1 mem
      cases same

theorem replies_completeNode {node : Node} {above : Supplier} {tracer : Tracer}
    (random : node.block = .random lock) (s : Session) :
    (if node.missingInputs.isEmpty then
      g.repliesToProgram above tracer id (node.block.plan id node.name) s else []) = [] := by
  rw [random]
  split <;> rfl

section
variable {node : Node} (wired : g.Wired) (acyclic : g.Acyclic) (hn : g.node? id = some node)
variable (random : node.block = .random lock) (le : n ≤ g.size) (low : g.height id ≤ n)
include wired acyclic hn random le low

theorem visits_build (sound : s.Sound .trivial g) (fit : s.Fit id lock) :
    IfEnds (g.buildBlockWith (g.supplierWithin n) id) s fun _ s' =>
      Visits g id lock s (g.repliesToBlock (g.supplierWithin n) (g.tracerWithin n) id s) s' := by
  simp only [Graph.buildBlockWith, Graph.repliesToBlock, ifEnds_bind, ifEnds_get]
  split
  · rename_i known
    exact (ifEnds_pure ..).2 ⟨fit, fun _ mem => (List.not_mem_nil mem).elim,
      fun _ mem => (List.not_mem_nil mem).elim, List.contains_iff_mem.1 known, fun _ => rfl⟩
  · rename_i unknown
    have fresh : id ∉ s.built := fun built => unknown (List.contains_iff_mem.2 built)
    let noted : Session := { s with built := id :: s.built }
    have noted_sound : noted.Sound .trivial g := sound.of_same rfl rfl rfl
    have tells := acyclic.leavesAlone wired id (Nat.le_succ_of_le le)
    have serves := Graph.supplierWithin_serves (Facts.trivial_lasting g) wired acyclic n
    have feeders : ∀ o ∈ node.peers, g.height o.block < g.height id ∧ g.height o.block < n :=
      fun o mem => by
        have below := acyclic.height_lt ((Graph.feeds_iff ..).2 ⟨node, hn, o, mem, rfl⟩)
        exact ⟨below, below.trans_le low⟩
    have peers := tells.buildAll (LeavesAlone.tolerates g id) serves (fun _ both => both.2)
      node.peers feeders noted_sound
    rw [ifEnds_bind, ifEnds_modify]
    simp only [hn, Graph.buildNode_eq, Graph.repliesToNode]
    rw [ifEnds_bind]
    intro _ t run
    have alone := peers _ t run
    have built : id ∈ t.built := alone.built.2 (List.mem_cons_self ..)
    have nothing : ∀ p : SocketId, p.block = id → t.stored.lookup p = none := fun p own =>
      (alone.stored p own).trans (fit.unvisited fresh p own)
    rw [afterwards_of_run run, replies_completeNode random, List.append_nil]
    exact (fit_completeNode random nothing built).mono fun _ _ both =>
      ⟨both.1, alone.reads, alone.others, both.2, fun known => absurd known fresh⟩

end

section
variable {above : Supplier}

theorem Graph.run_takeOutput_of_none (found : s.stored.lookup p = none) :
    (g.takeOutput above p).run s = some (.null, s) := by
  rw [Graph.takeOutput, StateT.run_bind, StateT.run_get]
  simp only [found, Option.pure_def, Option.bind_eq_bind, Option.bind_some, StateT.run_pure]

theorem Graph.run_takeOutput_of_value {v : Value} (found : s.stored.lookup p = some (.value v)) :
    (g.takeOutput above p).run s = some (v, s) := by
  rw [Graph.takeOutput, StateT.run_bind, StateT.run_get]
  simp only [found, Option.pure_def, Option.bind_eq_bind, Option.bind_some, StateT.run_pure]

theorem Graph.run_takeOutput_of_deferred {owner : BlockId} {program : Program Value}
    (found : s.stored.lookup p = some (.deferred owner program)) :
    (g.takeOutput above p).run s = (g.runProgram above owner program).run s := by
  rw [Graph.takeOutput, StateT.run_bind, StateT.run_get]
  simp only [found, Option.pure_def, Option.bind_eq_bind, Option.bind_some]

end

/-- An output of the block yields a value, and the block sticks to it. -/
structure Fetches (g : Graph) (id : BlockId) (lock : Lock) (p : SocketId) (t : Session)
    (replies : List Reply) (v : Value) (t' : Session) : Prop where
  fit : t'.Fit id lock
  lasts : ∀ q key w, q.block = id → t.answer? q key = some w → t'.answer? q key = some w
  reads : ∀ r ∈ replies, r.IsRead g
  others : ∀ r ∈ replies, r.output.block ≠ id
  given : ∀ key, lock.key? t.contexts = some key → t'.answer? p key = some v
  recalled : ∀ key, lock.key? t.contexts = some key → ∀ w, t.answer? p key = some w →
    v = w ∧ t' = t ∧ ∀ above, (g.takeOutput above p).run t = some (v, t)

theorem Fetches.of_known {v : Value} (fit : t.Fit id lock)
    (known : ∀ key, lock.key? t.contexts = some key → t.answer? p key = some v)
    (taken : ∀ above, (g.takeOutput above p).run t = some (v, t)) :
    Fetches g id lock p t [] v t where
  fit := fit
  lasts _ _ _ _ answered := answered
  reads := fun _ mem => (List.not_mem_nil mem).elim
  others := fun _ mem => (List.not_mem_nil mem).elim
  given := known
  recalled key found _ answered :=
    ⟨Option.some.inj ((known key found).symm.trans answered), rfl, taken⟩

theorem Fetches.of_leavesAlone {v : Value} (fit : t.Fit id lock)
    (alone : LeavesAlone g id t replies t') (unlocked : lock.key? t.contexts = none) :
    Fetches g id lock p t replies v t' where
  fit := alone.fit fit
  lasts q key _ own found := by rw [alone.answer? fit own, found]
  reads := alone.reads
  others := alone.others
  given key found := by simp [unlocked] at found
  recalled key found := by simp [unlocked] at found

theorem Fetches.of_kept {v : Value} {key : Int} {program : Program Value} (fit : t.Fit id lock)
    (alone : LeavesAlone g id t replies t') (own : p.block = id)
    (locked : lock.key? t.contexts = some key)
    (deferred : t.stored.lookup p = some (.deferred id program))
    (unknown : t.kept[(id, key)]? = none) :
    Fetches g id lock p t replies v { t' with kept := t'.kept.insert (id, key) v } where
  fit := ⟨(alone.fit fit).unvisited, (alone.fit fit).program⟩
  lasts q key' w ownQ found := by
    rw [← alone.answer? fit ownQ] at found
    unfold Session.answer? at found ⊢
    split
    · rename_i stored
      simpa [stored] using found
    · rename_i owner program' stored
      obtain ⟨rfl, -⟩ := (alone.fit fit).program q owner program' ownQ stored
      have kept : t'.kept[(owner, key')]? = some w := by simpa [stored] using found
      have other : key ≠ key' := by
        rintro rfl
        rw [alone.kept, unknown] at kept
        cases kept
      simpa [Std.HashMap.getElem?_insert, other] using kept
    · rename_i stored
      simpa [stored] using found
  reads := alone.reads
  others := alone.others
  given key' found := by
    cases Option.some.inj (locked.symm.trans found)
    simp [Session.answer?, alone.stored p own, deferred]
  recalled key' found w answered := by
    cases Option.some.inj (locked.symm.trans found)
    simp [Session.answer?, deferred, unknown] at answered

section
variable (wired : g.Wired) (acyclic : g.Acyclic) (le : n ≤ g.size) (low : g.height id ≤ n)
include wired acyclic le low

theorem leavesAlone_freshRandom (sound : s.Sound .trivial g) :
    IfEnds (g.runProgram (g.supplierWithin n) id Block.freshRandom) s fun _ s' =>
      LeavesAlone g id s (g.repliesToProgram (g.supplierWithin n) (g.tracerWithin n) id
        Block.freshRandom s) s' := by
  have tells := acyclic.leavesAlone wired id (Nat.le_succ_of_le le)
  have serves := Graph.supplierWithin_serves (Facts.trivial_lasting g) wired acyclic n
  have below : ∀ i o, g.peer? (.input id i) = some o → g.height o.block < g.height id :=
    fun i o peer => acyclic.height_lt (wired.feeds_of_peer? peer)
  have runs := serves.runs fun i o (peer : g.peer? (.input id i) = some o) =>
    (below i o peer).trans_le low
  exact tells.runProgram (LeavesAlone.tolerates g id) runs
    (fun i o peer => ⟨below i o peer, (below i o peer).trans_le low⟩) (fun _ _ => True.intro) _
    (.inr Block.keepsNothing_freshRandom) sound

theorem fetches_deferred (sound : t.Sound .trivial g) (fit : t.Fit id lock) (own : p.block = id)
    (found : t.stored.lookup p = some (.deferred id (Block.randomProgram lock))) :
    IfEnds (g.runProgram (g.supplierWithin n) id (Block.randomProgram lock)) t fun v t' =>
      Fetches g id lock p t (g.repliesToProgram (g.supplierWithin n) (g.tracerWithin n) id
        (Block.randomProgram lock) t) v t' := by
  subst own
  intro v t' run
  rw [Block.repliesTo_randomProgram]
  rw [Block.run_randomProgram] at run
  cases locked : lock.key? t.contexts with
  | none =>
    obtain ⟨stored, built, kept, result⟩ := Block.consult_same lock t
    have fresh : Block.randomFor lock t.contexts = Block.freshRandom := by
      rw [Block.randomFor, locked]
    rw [fresh] at run ⊢
    have alone := leavesAlone_freshRandom wired acyclic le low
      (sound.of_same stored kept result) v t' run
    exact .of_leavesAlone fit ((LeavesAlone.of_same stored built kept).trans alone) locked
  | some key =>
    have keeping : Block.randomFor lock t.contexts = Block.keptRandom key := by
      rw [Block.randomFor, locked]
    rw [keeping, Block.consult_of_key? locked] at run ⊢
    cases known : t.kept[(p.block, key)]? with
    | some w =>
      have recalled : ∀ above : Supplier,
          (g.runProgram above p.block (Block.keptRandom key)).run t = some (w, t) := fun _ =>
        (Block.run_keptRandom_of_some known).1
      rw [(Block.run_keptRandom_of_some known).2]
      rw [recalled] at run
      cases run
      refine .of_known fit (fun key' locked' => ?_) fun above => ?_
      · cases Option.some.inj (locked.symm.trans locked')
        simp [Session.answer?, found, known]
      · rw [Graph.run_takeOutput_of_deferred found, Block.run_randomProgram, keeping,
          Block.consult_of_key? locked]
        exact recalled above
    | none =>
      obtain ⟨t₁, drawn, rfl, replies⟩ := Block.run_keptRandom_of_none known run
      rw [replies]
      have alone := leavesAlone_freshRandom wired acyclic le low sound v t₁ drawn
      exact .of_kept fit alone rfl locked found known

theorem fetches_output (own : p.block = id) (sound : t.Sound .trivial g) (fit : t.Fit id lock)
    (visited : id ∈ t.built) :
    IfEnds (g.takeOutput (g.supplierWithin n) p) t fun v t' =>
      Fetches g id lock p t (g.repliesToTaking (g.supplierWithin n) (g.tracerWithin n) p t) v t' := by
  subst own
  intro v t' run
  rw [Graph.repliesToTaking]
  cases found : t.stored.lookup p with
  | none =>
    rw [Graph.run_takeOutput_of_none found] at run
    cases run
    refine .of_known fit (fun key _ => ?_) fun above => Graph.run_takeOutput_of_none found
    rw [Session.answer?, found]
    exact if_pos visited
  | some x =>
    cases x with
    | value w =>
      rw [Graph.run_takeOutput_of_value found] at run
      cases run
      refine .of_known fit (fun key _ => ?_) fun above => Graph.run_takeOutput_of_value found
      rw [Session.answer?, found]
    | deferred owner program =>
      obtain ⟨rfl, rfl⟩ := fit.program p owner program rfl found
      rw [Graph.run_takeOutput_of_deferred found] at run
      exact fetches_deferred wired acyclic le low sound fit rfl found v t' run

end

theorem Graph.run_readOutputWith_of_built (built : p.block ∈ s.built) (above : Supplier) :
    (g.readOutputWith above p).run s = (g.takeOutput above p).run s := by
  obtain ⟨_, _, run, rfl⟩ : Ends (g.buildBlockWith above p.block) s fun _ s' => s' = s :=
    Graph.buildBlockWith_of_built built
  rw [Graph.readOutputWith_eq, StateT.run_bind, run]
  rfl

theorem Visits.read (visits : Visits g id lock s replies t) (fit : s.Fit id lock)
    (contexts : t.contexts = s.contexts) (own : p.block = id) {v : Value}
    (fetches : Fetches g id lock p t replies' v t') (isRead : Reply.IsRead g ⟨p, s, v, t'⟩) :
    Sticks g id lock s (replies ++ replies' ++ [⟨p, s, v, t'⟩]) t' := by
  have others : ∀ r ∈ replies ++ replies', r.IsRead g ∧ r.output.block ≠ id := by
    intro r mem
    rcases List.mem_append.1 mem with early | late
    · exact ⟨visits.reads r early, visits.others r early⟩
    · exact ⟨fetches.reads r late, fetches.others r late⟩
  constructor
  case fit => exact fetches.fit
  case lasts =>
    intro q key w own found
    exact fetches.lasts q key w own ((visits.sticks fit).lasts q key w own found)
  case reads =>
    intro r mem
    rcases List.mem_append.1 mem with other | last
    · exact (others r other).1
    · exact List.mem_singleton.1 last ▸ isRead
  case recalled =>
    intro r mem ownR key locked w answered
    rcases List.mem_append.1 mem with other | last
    · exact absurd ownR (others r other).2
    · obtain rfl := List.mem_singleton.1 last
      have built : id ∈ s.built := by
        by_contra fresh
        rw [fit.answer?_unvisited fresh own] at answered
        cases answered
      obtain rfl := visits.again built
      obtain ⟨same, unchanged, taken⟩ := fetches.recalled key locked w answered
      refine ⟨same, unchanged, fun above => ?_⟩
      exact (Graph.run_readOutputWith_of_built (own ▸ built) above).trans (taken above)
  case given =>
    intro r mem ownR key locked
    rcases List.mem_append.1 mem with other | last
    · exact absurd ownR (others r other).2
    · obtain rfl := List.mem_singleton.1 last
      exact fetches.given key (contexts ▸ locked)
  case pairs =>
    refine List.pairwise_append.2 ⟨?_, List.pairwise_singleton .., ?_⟩
    · exact List.pairwise_of_forall_mem_list fun r mem _ _ ownR => absurd ownR (others r mem).2
    · exact fun r mem _ _ ownR => absurd ownR (others r mem).2

section
variable {node : Node} (wired : g.Wired) (acyclic : g.Acyclic) (hn : g.node? id = some node)
variable (random : node.block = .random lock)
include wired acyclic hn random

theorem sticks_supplier :
    (g.supplierWithin (g.size + 1)).Tells g (g.tracerWithin (g.size + 1))
      (fun s replies s' => s.Fit id lock → Sticks g id lock s replies s')
      fun b => True ∧ g.height b < g.size + 1 := by
  refine (Sticks.tolerates g id lock).tells wired acyclic (fun _ _ _ _ => True.intro) ?_ le_rfl
  intro _ n le low
  have serves := Graph.supplierWithin_serves (Facts.trivial_lasting g) wired acyclic (n + 1)
  constructor
  · rintro b s rfl sound v s' run fit
    exact (visits_build wired acyclic hn random le low sound fit v s' run).sticks fit
  · rintro p s own sound v s' run fit
    change (g.readOutputWith (g.supplierWithin n) p).run s = some (v, s') at run
    change Sticks g id lock s (g.repliesToOutput _ _ p s) s'
    have isRead : Reply.IsRead g ⟨p, s, v, s'⟩ :=
      (g.supplierWithin_refines (Nat.succ_le_succ le)).read p s _ run
    rw [Graph.repliesToOutput, afterwards_of_run run]
    rw [Graph.readOutputWith_eq] at run
    simp only [StateT.run_bind, Option.bind_eq_bind, Option.bind_eq_some_iff] at run
    obtain ⟨⟨_, t⟩, building, taking⟩ := run
    rw [afterwards_of_run building]
    rw [own] at building ⊢
    have visits := visits_build wired acyclic hn random le low sound fit _ t building
    obtain ⟨sound', contexts⟩ :=
      (serves.build id s (Nat.lt_succ_of_le low) sound).of_run building
    have fetches := fetches_output wired acyclic le low own sound' visits.fit visits.built v s' taking
    exact visits.read fit contexts own fetches isRead

theorem Graph.Transcript.sticks (transcript : g.Transcript s replies) :
    ∃ config, Sticks g id lock (.start config) replies s := by
  have tells := sticks_supplier wired acyclic hn random
  have tolerates := Sticks.tolerates g id lock
  have low : ∀ b, True ∧ g.height b < g.size + 1 := fun b =>
    ⟨True.intro, Nat.lt_succ_of_le (wired.height_le_size b)⟩
  induction transcript with
  | start config =>
    have fit : Session.Fit id lock (.start config) :=
      ⟨fun _ _ _ => rfl, fun _ _ _ _ found => nomatch found⟩
    exact ⟨config, tolerates.refl _ fit⟩
  | @enter s _ contexts _ ih =>
    obtain ⟨config, sticks⟩ := ih
    have same : Sticks g id lock s [] { s with contexts } := tolerates.same rfl rfl rfl sticks.fit
    exact ⟨config, by simpa using sticks.trans same⟩
  | @draw s _ generator _ ih =>
    obtain ⟨config, sticks⟩ := ih
    have same : Sticks g id lock s [] { s with generator } := tolerates.same rfl rfl rfl sticks.fit
    exact ⟨config, by simpa using sticks.trans same⟩
  | @record s _ d _ ih =>
    obtain ⟨config, sticks⟩ := ih
    have same := sticks.trans (tolerates.same (s.unbuilt_record d).stored (s.unbuilt_record d).built
      (s.kept_record d) sticks.fit)
    exact ⟨config, by simpa using same⟩
  | build before run ih =>
    obtain ⟨config, sticks⟩ := ih
    have sound := before.inPass.sound (Facts.trivial_lasting g) wired acyclic
    exact ⟨config, sticks.trans (tells.build (low _) sound _ _ run sticks.fit)⟩
  | read before run ih =>
    obtain ⟨config, sticks⟩ := ih
    have sound := before.inPass.sound (Facts.trivial_lasting g) wired acyclic
    exact ⟨config, sticks.trans (tells.read (low _) sound _ _ run sticks.fit)⟩

end

end

/-- Of two reads of one locked output under one key the later comes to the value of the earlier one,
changes nothing, and comes to it whatever the blocks above might answer: nothing is asked of them. -/
theorem Graph.Reachable.locked {g : Graph} (h : g.Reachable) {id : BlockId} {node : Node}
    {lock : Lock} (hn : g.node? id = some node) (random : node.block = .random lock) {s : Session}
    {replies : List Reply} (transcript : g.Transcript s replies) :
    (∀ r ∈ replies, r.IsRead g) ∧
      (replies.Pairwise fun first later => first.output = .output id 0 →
        later.output = .output id 0 → ∀ key, lock.key? first.before.contexts = some key →
          lock.key? later.before.contexts = some key →
            later.value = first.value ∧ later.after = later.before ∧
              ∀ above, (g.readOutputWith above (.output id 0)).run later.before
                = some (later.value, later.before)) ∧
      ∀ p, Ends (g.supplier.read p) s fun v s' =>
        ∃ needed, g.Transcript s' (replies ++ (needed ++ [⟨p, s, v, s'⟩])) := by
  have wired := h.wired
  have acyclic := h.acyclic
  obtain ⟨config, sticks⟩ := transcript.sticks wired acyclic hn random
  refine ⟨sticks.reads, sticks.pairs.imp ?_, fun p => ?_⟩
  · intro first later locks own own' key found found'
    obtain ⟨same, unchanged, recalled⟩ :=
      locks (own ▸ rfl) (own'.trans own.symm) key found found'
    exact ⟨same, unchanged, own' ▸ recalled⟩
  · obtain ⟨v, s', run, -⟩ :=
      transcript.inPass.read_ends (Facts.trivial_lasting g) wired acyclic p
    obtain ⟨needed, traced⟩ := Graph.tracer_read_of_run run
    exact ⟨v, s', run, needed, traced ▸ .read transcript run⟩

def Graph.rolled : Graph :=
  [.add "low" (.input (.ofValue (.int 1))), .add "high" (.input (.ofValue (.int 7))),
    .add "die" (.random .loopId), .connectUnchecked (.output 0 0) (.input 2 0),
    .connectUnchecked (.output 1 0) (.input 2 1)].foldl Edit.apply .empty

theorem Graph.locked_rolled :
    let die := Graph.rolled.supplier.read (.output 2 0)
    let third : Contexts := { execution := some (.atStep 9 3) }
    let fourth : Contexts := { execution := some (.atStep 9 4) }
    ∃ v w s s', die.run { Session.start {} with contexts := third } = some (v, s) ∧
      die.run { s with contexts := fourth } = some (w, s') ∧
      die.run { s' with contexts := third } = some (v, { s' with contexts := third }) := by
  intro die third fourth
  have reached : Graph.rolled.Reachable := by
    refine ReachableBy.foldl .empty _ ?_
    refine ⟨?_, ?_, ?_, trivial, trivial, trivial⟩ <;> decide +kernel
  obtain ⟨n, hn, random⟩ : ∃ n, Graph.rolled.node? 2 = some n ∧ n.block = .random .loopId :=
    ⟨_, rfl, rfl⟩
  have read : ∀ {s replies} contexts, Graph.rolled.Transcript s replies → _ :=
    fun contexts transcript =>
      (Graph.Reachable.locked reached hn random (.enter contexts transcript)).2.2 (.output 2 0)
  obtain ⟨v, s, run, needed, transcript⟩ := read third (.start {})
  obtain ⟨w, s', run', needed', transcript'⟩ := read fourth transcript
  obtain ⟨x, s'', run'', needed'', transcript''⟩ := read third transcript'
  have pairs := (Graph.Reachable.locked reached hn random transcript'').2.1
  obtain ⟨same, unchanged, -⟩ := (List.pairwise_append.1 pairs).2.2
    ⟨.output 2 0, { Session.start {} with contexts := third }, v, s⟩ (by simp)
    ⟨.output 2 0, { s' with contexts := third }, x, s''⟩ (by simp) rfl rfl 3 rfl rfl
  cases same
  cases unchanged
  exact ⟨v, w, s, s', run, run', run''⟩

end MeshFlow
