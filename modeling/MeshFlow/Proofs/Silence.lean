import MeshFlow.Proofs.Storing

set_option autoImplicit false

/-!
# Reads that leave no trace

A program is silent if it draws and keeps nothing, whatever it is answered. The standard blocks that
do not draw random numbers hand on silent programs only. So once a block has been visited, and if
neither it nor what reaches it draws, a read of its outputs changes nothing but what is reported.
-/
namespace MeshFlow
namespace Program
variable {α β σ : Type} {P : α → Prop} {Q : β → Prop}

/-- Whatever the answers, the program draws nothing and keeps nothing, and comes to a result of a
sort. -/
def Hushes (P : α → Prop) : Program α → Prop
  | done a => P a
  | read _ k => ∀ v, (k v).Hushes P
  | adapt _ _ k => ∀ v?, (k v?).Hushes P
  | isConnected _ k | isVarying _ k => ∀ b, (k b).Hushes P
  | contexts k => ∀ c, (k c).Hushes P
  | enter _ k | record _ k => k.Hushes P
  | draw _ | kept .. | keep .. => False

abbrev Silent (p : Program α) : Prop := p.Hushes fun _ => True

theorem silent_pure (a : α) : (pure a : Program α).Silent := True.intro

theorem Hushes.bind {p : Program α} (h : p.Hushes P) {f : α → Program β}
    (h' : ∀ a, P a → (f a).Hushes Q) : (p >>= f).Hushes Q := by
  induction p with
  | done a => exact h' a h
  | read i k ih | adapt i kind k ih | isConnected i k ih | isVarying i k ih | contexts k ih =>
    exact fun answer => ih answer (h answer)
  | enter c k ih | record d k ih => exact ih h
  | draw | kept | keep => exact h.elim

theorem Silent.then {p : Program α} (h : p.Silent) {f : α → Program β}
    (h' : ∀ a, (f a).Hushes Q) : (p >>= f).Hushes Q := Hushes.bind h fun a _ => h' a

theorem Hushes.ite {p q : Program α} (h : p.Hushes P) (h' : q.Hushes P) (b : Prop) [Decidable b] :
    (if b then p else q).Hushes P := by
  split
  · exact h
  · exact h'

theorem Plain.silent {p : Program α} (h : p.Plain fun _ => True) : p.Silent := by
  induction p with
  | done a => exact True.intro
  | read i k ih | adapt i kind k ih | isConnected i k ih => exact fun answer => ih answer (h answer)
  | record d k ih => exact ih h.2.2
  | isVarying | contexts | enter | draw | kept | keep => exact h.elim

theorem silent_currentContexts : currentContexts.Silent := fun _ => True.intro

theorem silent_setContexts (c : Contexts) : (setContexts c).Silent := True.intro

theorem silent_report (d : Diagnostic) : (report d).Silent := True.intro

theorem silent_varying (i : Nat) : (varying i).Silent := fun _ => True.intro

theorem silent_contextual (source : ContextualSource) : (contextual source).Silent :=
  silent_currentContexts.then fun _ =>
    ((silent_report _).then fun _ => silent_pure _).ite (silent_pure _) _

theorem Silent.inScope {p : Program α} (h : p.Silent) : (inScope p).Silent :=
  silent_currentContexts.then fun outer => h.then fun _ =>
    (silent_setContexts outer).then fun _ => silent_pure _

theorem silent_forEach {step : σ → α → Program σ} (h : ∀ s a, (step s a).Silent)
    (entries : List α) (s : σ) : (forEach step entries s).Silent := by
  induction entries generalizing s with
  | nil => exact silent_pure s
  | cons a rest ih => exact (h s a).then fun s' => ih s'

end Program

namespace Block
open Program
variable (id : BlockId)

/-- The block may draw random numbers. -/
def Draws : Block → Prop
  | random _ | instantiateOnFaces _ | instantiateOnVertices .. | instantiateOnVolume .. => True
  | _ => False

theorem silent_vertexEntry (target : Attribute) (outer : Contexts)
    (entries : List (Option (List Float32))) (vertex : Nat) :
    (vertexEntry id target outer entries vertex).Silent := by
  refine (silent_setContexts _).then fun _ => (plain_value 1).silent.then fun v => ?_
  cases target.components? v with
  | some xs => exact silent_pure _
  | none => exact ((silent_report _).then fun _ => silent_pure _).ite (silent_pure _) _

theorem silent_setAttribute (target : Attribute) : (setAttributeProgram id target).Silent := by
  refine Silent.inScope ((plain_mesh? 0).silent.then fun m? => ?_)
  cases m? with
  | none => exact silent_pure _
  | some incoming =>
    refine Hushes.ite (silent_pure _) ?_ _
    refine (plain_connected 1).silent.then fun _ => Hushes.ite (silent_pure _) ?_ _
    refine silent_currentContexts.then fun outer => ?_
    exact (silent_forEach (silent_vertexEntry id target _) _ _).then fun _ => silent_pure _

theorem silent_instantiate : (instantiateProgram id).Silent := by
  have step : ∀ outer copies i,
      (placeAt loopInputs outer (Execution.atStep id i) none copies).Silent :=
    fun outer copies i => (silent_setContexts _).then fun _ => (plain_place _ none copies).silent
  have probe : (neverPlaces loopInputs.item).Silent :=
    (silent_varying _).then fun _ => Hushes.ite (silent_pure _)
      ((plain_mesh? _).silent.then fun _ => silent_pure _) _
  refine Silent.inScope ((plain_countInput 1 1).silent.then fun count => ?_)
  refine Hushes.ite (silent_pure _) (probe.then fun _ => Hushes.ite (silent_pure _) ?_ _) _
  refine silent_currentContexts.then fun outer => ?_
  exact (silent_forEach (step outer) _ _).then fun _ => (plain_joined _).silent

end Block

def Supply.Silent : Supply → Prop
  | .value _ => True
  | .onRead program => program.Silent

def Plan.Silent (plan : Plan) : Prop := ∀ entry ∈ plan.outputs, entry.2.Silent

theorem Plan.silent_onRead {ι : Type} (index : ι → Nat) (program : ι → Program Value)
    (entries : List ι) (h : ∀ e ∈ entries, (program e).Silent) (result : Option Value) :
    Plan.Silent ⟨entries.map fun e => (index e, .onRead (program e)), result⟩ := by
  intro entry mem
  obtain ⟨e, he, rfl⟩ := List.mem_map.1 mem
  exact h e he

theorem Plan.silent_one {supply : Supply} (h : supply.Silent) (index : Nat) (result : Option Value) :
    Plan.Silent ⟨[(index, supply)], result⟩ := by
  intro entry mem
  rw [List.mem_singleton.1 mem]
  exact h

theorem Program.Silent.single {p : Program Value} (h : p.Silent) (everyRead : Bool) :
    (single everyRead p).Hushes Plan.Silent := by
  have supplied : (supply everyRead p).Hushes Supply.Silent := by
    cases everyRead with
    | true => exact h
    | false => exact h.then fun _ => True.intro
  exact supplied.bind fun _ silent => Plan.silent_one silent 0 none

theorem Program.Hushes.ends {g : Graph} {α : Type} {P : α → Prop} {p : Program α} (h : p.Hushes P)
    (above : Supplier) (owner : BlockId) (s : Session) :
    IfEnds (g.runProgram above owner p) s fun a _ => P a := by
  induction p generalizing s with
  | done a => exact (ifEnds_pure ..).2 h
  | read i k ih | adapt i kind k ih | isVarying i k ih =>
    rw [Graph.runProgram, ifEnds_bind]
    exact fun answer s' _ => ih answer (h answer) s'
  | isConnected i k ih => exact ih _ (h _) s
  | contexts k ih =>
    simp only [Graph.runProgram, ifEnds_bind, ifEnds_get]
    exact ih _ (h _) s
  | enter c k ih | record d k ih =>
    simp only [Graph.runProgram, ifEnds_bind, ifEnds_modify]
    exact ih h _
  | draw | kept | keep => exact h.elim

theorem Block.IsStandard.silent_plan {b : Block} (h : b.IsStandard) (draws : ¬ b.Draws)
    (id : BlockId) (name : String) : (b.plan id name).Hushes Plan.Silent := by
  have plain : ∀ {p : Program Value}, p.Plain (fun _ => True) → ∀ everyRead,
      (Program.single everyRead p).Hushes Plan.Silent := fun h everyRead => h.silent.single everyRead
  have fixed : ∀ v, (Block.fixed v).Hushes Plan.Silent := fun v =>
    Plan.silent_one (show (Supply.value v).Silent from True.intro) 0 none
  cases b with
  | custom block => exact h.elim
  | random | instantiateOnFaces | instantiateOnVertices | instantiateOnVolume =>
    exact (draws True.intro).elim
  | box e => exact plain (plain_box id) e
  | sphere e => exact plain (plain_sphere id) e
  | plane e => exact plain (plain_plane id) e
  | cylinder e => exact plain (plain_cylinder id) e
  | pointList points => exact fixed _
  | mesh data reverseWinding => exact fixed _
  | input settings =>
    cases found : settings.source with
    | none =>
      rw [Block.plan, found]
      exact fixed _
    | some source =>
      rw [Block.plan, found]
      exact (Program.silent_contextual source).single true
  | output => exact fun v entry mem => (List.not_mem_nil mem).elim
  | math operation => exact plain (plain_math operation) true
  | vectorConverter =>
    exact Plan.silent_onRead Prod.snd
      (fun entry : (Space.Vec4 → Value) × Nat => do return entry.1 (← combinedVector)) _
      (fun _ _ => (plain_combinedVector.bind fun _ => Program.plain_pure _).silent) none
  | shift => exact plain plain_shift true
  | scaling => exact plain plain_scaling true
  | rotation axis => exact plain (plain_rotation axis) true
  | matrixCompose => exact plain plain_compose true
  | setAttribute target e => exact (silent_setAttribute id target).single e
  | computeNormals e => exact plain plain_computeNormals e
  | transform e => exact plain plain_transform e
  | merge e => exact plain plain_merge e
  | info =>
    intro entry mem
    simp only [infoPlan, List.mem_cons, List.not_mem_nil, or_false] at mem
    rcases mem with rfl | rfl | rfl | rfl
    · exact ((Program.plain_mesh? 0).bind fun _ => Program.plain_pure _).silent
    all_goals exact (plain_infoProgram _).silent
  | instantiate e => exact (silent_instantiate id).single e

/-- There is no block of that number that draws. -/
def Graph.DrawsNot (g : Graph) (id : BlockId) : Prop := ∀ n, g.node? id = some n → ¬ n.block.Draws

/-- Neither the block nor any that reaches it draws. -/
def Graph.Hushed (g : Graph) (id : BlockId) : Prop := ∀ a, g.UpTo id a → g.DrawsNot a

/-- What is stored to be run of a block that does not draw is a silent program of its own. -/
def Graph.StoresSilent (g : Graph) (stored : List (SocketId × Stored)) : Prop :=
  ∀ p owner program, stored.lookup p = some (.deferred owner program) → g.DrawsNot p.block →
    owner = p.block ∧ program.Silent

theorem Graph.StoresSilent.storing {g : Graph} {s : Session} (h : g.StoresSilent s.stored)
    {id : BlockId} {outputs : List (Nat × Supply)}
    (silent : g.DrawsNot id → ∀ e ∈ outputs, e.2.Silent) :
    g.StoresSilent (s.storing id outputs).stored := by
  intro p owner program found draws
  rcases Session.lookup_storing found with ⟨⟨index, supply⟩, he, rfl, same⟩ | old
  · cases supply with
    | value v => cases same
    | onRead own =>
      cases same
      exact ⟨rfl, silent draws _ he⟩
  · exact h p owner program old draws

theorem Graph.Declares.lasts_silent {g : Graph} (h : g.Declares Block.IsStandard) :
    g.Lasts fun stored _ => g.StoresSilent stored where
  visited _ _ _ ok := ok
  planned above id node s s' plan hn run _ ok := ok.storing fun draws =>
    ((h.sort id node hn).silent_plan (draws node hn) id node.name).ends above id s plan s' run
  nulls id indices s ok := ok.storing fun _ e he => by
    obtain ⟨i, -, rfl⟩ := List.mem_map.1 he
    exact True.intro

theorem Graph.InPass.storesSilent {g : Graph} {s : Session} (h : g.InPass s)
    (declares : g.Declares Block.IsStandard) : g.StoresSilent s.stored :=
  declares.lasts_silent.inPass (fun _ _ _ found => nomatch found) h

/-- Two sessions are one but for the contexts and for what has been reported. -/
def Session.Like (t s : Session) : Prop :=
  ∃ contexts diagnostics, t = { s with contexts, diagnostics }

namespace Session.Like
variable {s t : Session}

theorem refl (s : Session) : s.Like s := ⟨s.contexts, s.diagnostics, rfl⟩

theorem enter (h : t.Like s) (contexts : Contexts) : Session.Like { t with contexts } s := by
  obtain ⟨_, diagnostics, rfl⟩ := h
  exact ⟨contexts, diagnostics, rfl⟩

theorem record (h : t.Like s) (d : Diagnostic) : (t.record d).Like s := by
  obtain ⟨contexts, diagnostics, rfl⟩ := h
  rw [Session.record]
  split
  · exact ⟨contexts, diagnostics, rfl⟩
  · exact ⟨contexts, _, rfl⟩

theorem stored (h : t.Like s) : t.stored = s.stored := by
  obtain ⟨_, _, rfl⟩ := h
  rfl

theorem built (h : t.Like s) : t.built = s.built := by
  obtain ⟨_, _, rfl⟩ := h
  rfl

end Session.Like

/-- Calls for blocks of a sort leave nothing but reports behind in the session. -/
structure Supplier.Leaves (above : Supplier) (sort : BlockId → Prop) (s : Session) : Prop where
  build : ∀ id t, sort id → t.Like s → IfEnds (above.build id) t fun _ t' => t'.Like s
  read : ∀ o t, sort o.block → t.Like s → IfEnds (above.read o) t fun _ t' => t'.Like s

namespace Supplier.Leaves
variable {g : Graph} {above : Supplier} {sort : BlockId → Prop} {s t : Session}

theorem readInput (h : above.Leaves sort s) {p : SocketId}
    (fed : ∀ o, g.peer? p = some o → sort o.block) (like : t.Like s) :
    IfEnds (g.readInput above p) t fun _ t' => t'.Like s := by
  unfold Graph.readInput
  unfold Graph.peer? at fed
  cases hs : g.socket? p with
  | none => exact (ifEnds_pure ..).2 like
  | some socket =>
    cases peer : socket.peer with
    | none =>
      simp only [peer]
      exact (ifEnds_pure ..).2 like
    | some o =>
      simp only [peer]
      exact h.read o t (fed o (by rw [hs]; exact peer)) like

theorem adaptInput (h : above.Leaves sort s) {p : SocketId}
    (fed : ∀ o, g.peer? p = some o → sort o.block) (kind : Kind) (like : t.Like s) :
    IfEnds (g.adaptInput above p kind) t fun _ t' => t'.Like s := by
  rw [Graph.adaptInput, ifEnds_bind]
  refine (h.readInput fed like).mono fun v t' like' => ?_
  split
  · exact (ifEnds_pure ..).2 like'
  · split
    · simp only [ifEnds_bind, ifEnds_modify, ifEnds_pure]
      exact like'.record _
    · exact (ifEnds_pure ..).2 like'

theorem isVarying (h : above.Leaves sort s) {p : SocketId}
    (fed : ∀ o, g.peer? p = some o → sort o.block) (like : t.Like s) :
    IfEnds (g.isVarying above p) t fun _ t' => t'.Like s := by
  rw [Graph.isVarying]
  cases peer : g.peer? p with
  | none => exact (ifEnds_pure ..).2 like
  | some o =>
    simp only [ifEnds_bind, ifEnds_get, ifEnds_pure]
    exact h.build _ t (fed o peer) like

theorem runProgram {α : Type} (h : above.Leaves sort s) {owner : BlockId}
    (fed : ∀ i o, g.peer? (.input owner i) = some o → sort o.block) {P : α → Prop} {p : Program α}
    (silent : p.Hushes P) (like : t.Like s) :
    IfEnds (g.runProgram above owner p) t fun _ t' => t'.Like s := by
  induction p generalizing t with
  | done a => exact (ifEnds_pure ..).2 like
  | read i k ih =>
    rw [Graph.runProgram, ifEnds_bind]
    exact (h.readInput (fed i) like).mono fun v _ like' => ih v (silent v) like'
  | adapt i kind k ih =>
    rw [Graph.runProgram, ifEnds_bind]
    exact (h.adaptInput (fed i) kind like).mono fun v? _ like' => ih v? (silent v?) like'
  | isConnected i k ih => exact ih _ (silent _) like
  | isVarying i k ih =>
    rw [Graph.runProgram, ifEnds_bind]
    exact (h.isVarying (fed i) like).mono fun b _ like' => ih b (silent b) like'
  | contexts k ih =>
    simp only [Graph.runProgram, ifEnds_bind, ifEnds_get]
    exact ih _ (silent _) like
  | enter c k ih =>
    simp only [Graph.runProgram, ifEnds_bind, ifEnds_modify]
    exact ih silent (like.enter c)
  | record d k ih =>
    simp only [Graph.runProgram, ifEnds_bind, ifEnds_modify]
    exact ih silent (like.record d)
  | draw | kept | keep => exact silent.elim

end Supplier.Leaves

theorem Graph.Hushed.feeder {g : Graph} {id : BlockId} (h : g.Hushed id) (wired : g.Wired) {i : Nat}
    {o : SocketId} (peer : g.peer? (.input id i) = some o) : g.Hushed o.block := by
  have feeds := wired.feeds_of_peer? peer
  rintro a (rfl | reaches)
  · exact h _ (.inr (.single feeds))
  · exact h a (.inr (.tail reaches feeds))

/-- Once they have been visited, blocks that are hushed leave nothing but reports behind. -/
theorem Graph.InPass.leaves {g : Graph} {s : Session} (h : g.InPass s) (order : g.InOrder)
    (depth : Nat) :
    (g.supplierWithin depth).Leaves (fun id => id ∈ s.built ∧ g.Hushed id) s := by
  induction depth with
  | zero => exact ⟨fun _ _ _ _ => ifEnds_failure _, fun _ _ _ _ => ifEnds_failure _⟩
  | succ depth ih =>
    have build : ∀ id t, id ∈ s.built → t.Like s →
        IfEnds (g.buildBlockWith (g.supplierWithin depth) id) t fun _ t' => t' = t := by
      intro id t visited like
      have built : id ∈ t.built := like.built ▸ visited
      simp only [Graph.buildBlockWith, ifEnds_bind, ifEnds_get, List.contains_iff_mem, built,
        if_true]
      exact (ifEnds_pure ..).2 rfl
    refine ⟨fun id t ok like => (build id t ok.1 like).mono fun _ t' same => same ▸ like, ?_⟩
    rintro o t ⟨visited, hushed⟩ like
    change IfEnds (g.readOutputWith (g.supplierWithin depth) o) t _
    rw [Graph.readOutputWith, ifEnds_bind]
    refine (build o.block t visited like).mono ?_
    rintro _ t' rfl
    simp only [ifEnds_bind, ifEnds_get]
    cases found : t'.stored.lookup o with
    | none => exact (ifEnds_pure ..).2 like
    | some x =>
      cases x with
      | value v => exact (ifEnds_pure ..).2 like
      | deferred owner program =>
        rw [like.stored] at found
        have fed := h.fed order.wired found
        obtain ⟨rfl, silent⟩ :=
          h.storesSilent order.declares o owner program found (hushed _ (.inl rfl))
        exact ih.runProgram (fun i o' peer => ⟨fed i o' peer, hushed.feeder order.wired peer⟩)
          silent like

end MeshFlow
