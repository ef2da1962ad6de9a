import MeshFlow.Proofs.Reporting
import MeshFlow.Proofs.Underway

set_option autoImplicit false

/-!
# What passes keep of what is stored

What blocks store when they are built is all that is ever stored. So a claim about what is stored and
which blocks have been visited lasts through every call of a pass if it allows for one more block to
be visited, for null, and for what the plan of a block comes to once the blocks that feed it have
been visited. In particular a program is only stored once all that it can read has been built.
-/
namespace MeshFlow

/-- A claim about what is stored and what has been visited lasts if the building of a block bears it
out. -/
structure Graph.Lasts (g : Graph) (I : List (SocketId × Stored) → List BlockId → Prop) : Prop where
  visited : ∀ stored built id, I stored built → I stored (id :: built)
  planned : ∀ above id node s (s' : Session) plan, g.node? id = some node →
    (g.runProgram above id (node.block.plan id node.name)).run s = some (plan, s') →
    (∀ o ∈ node.peers, o.block ∈ s'.built) → I s'.stored s'.built →
    I (s'.storing id plan.outputs).stored s'.built
  nulls : ∀ id (indices : List Nat) (s : Session), I s.stored s.built →
    I (s.storing id (indices.map fun i => (i, .value .null))).stored s.built

/-- A pass has gone on: the claim is borne out, and all that had been visited still is. -/
structure Session.Onward (I : List (SocketId × Stored) → List BlockId → Prop) (s s' : Session) :
    Prop where
  holds : I s'.stored s'.built
  built : ∀ b ∈ s.built, b ∈ s'.built

namespace Session.Onward
variable {I : List (SocketId × Stored) → List BlockId → Prop} {s s' s'' : Session}

theorem refl (ok : I s.stored s.built) : s.Onward I s := ⟨ok, fun _ visited => visited⟩

theorem trans (h : s.Onward I s') (h' : s'.Onward I s'') : s.Onward I s'' :=
  ⟨h'.holds, fun b visited => h'.built b (h.built b visited)⟩

theorem record (h : s.Onward I s') (d : Diagnostic) : s.Onward I (s'.record d) := by
  obtain ⟨stored, built, -⟩ := s'.unbuilt_record d
  constructor
  · rw [stored, built]
    exact h.holds
  · rw [built]
    exact h.built

theorem then_ifEnds {α : Type} {b : Build α} (h : s.Onward I s')
    (next : IfEnds b s' fun _ s'' => s'.Onward I s'') : IfEnds b s' fun _ s'' => s.Onward I s'' :=
  next.mono fun _ _ further => h.trans further

end Session.Onward

/-- Whatever is called for, the claim is borne out afterwards if it was before, and what is built has
been visited. -/
structure Supplier.Preserves (above : Supplier)
    (I : List (SocketId × Stored) → List BlockId → Prop) : Prop where
  build : ∀ id (s : Session), I s.stored s.built →
    IfEnds (above.build id) s fun _ s' => s.Onward I s' ∧ id ∈ s'.built
  read : ∀ p (s : Session), I s.stored s.built →
    IfEnds (above.read p) s fun _ s' => s.Onward I s'

namespace Supplier.Preserves
variable {g : Graph} {I : List (SocketId × Stored) → List BlockId → Prop} {above : Supplier}
variable {s : Session}

theorem readInput (h : above.Preserves I) (p : SocketId) (ok : I s.stored s.built) :
    IfEnds (g.readInput above p) s fun _ s' => s.Onward I s' := by
  rw [Graph.readInput]
  split
  · exact (ifEnds_pure ..).2 (.refl ok)
  · split
    · exact h.read _ s ok
    · exact (ifEnds_pure ..).2 (.refl ok)

theorem adaptInput (h : above.Preserves I) (p : SocketId) (kind : Kind) (ok : I s.stored s.built) :
    IfEnds (g.adaptInput above p kind) s fun _ s' => s.Onward I s' := by
  rw [Graph.adaptInput, ifEnds_bind]
  refine (h.readInput p ok).mono fun v s' onward => ?_
  split
  · exact (ifEnds_pure ..).2 onward
  · split
    · simp only [ifEnds_bind, ifEnds_modify, ifEnds_pure]
      exact onward.record _
    · exact (ifEnds_pure ..).2 onward

theorem isVarying (h : above.Preserves I) (p : SocketId) (ok : I s.stored s.built) :
    IfEnds (g.isVarying above p) s fun _ s' => s.Onward I s' := by
  rw [Graph.isVarying]
  split
  · exact (ifEnds_pure ..).2 (.refl ok)
  · simp only [ifEnds_bind, ifEnds_get, ifEnds_pure]
    exact (h.build _ s ok).mono fun _ _ both => both.1

theorem runProgram {α : Type} (h : above.Preserves I) (owner : BlockId) (program : Program α)
    (ok : I s.stored s.built) :
    IfEnds (g.runProgram above owner program) s fun _ s' => s.Onward I s' := by
  induction program generalizing s with
  | done a => exact (ifEnds_pure ..).2 (.refl ok)
  | read i k ih =>
    rw [Graph.runProgram, ifEnds_bind]
    exact (h.readInput _ ok).mono fun v _ onward => onward.then_ifEnds (ih v onward.holds)
  | adapt i kind k ih =>
    rw [Graph.runProgram, ifEnds_bind]
    exact (h.adaptInput _ kind ok).mono fun v? _ onward => onward.then_ifEnds (ih v? onward.holds)
  | isConnected i k ih => exact ih _ ok
  | isVarying i k ih =>
    rw [Graph.runProgram, ifEnds_bind]
    exact (h.isVarying _ ok).mono fun b _ onward => onward.then_ifEnds (ih b onward.holds)
  | contexts k ih | kept key k ih =>
    simp only [Graph.runProgram, ifEnds_bind, ifEnds_get]
    exact ih _ ok
  | draw k ih =>
    simp only [Graph.runProgram, ifEnds_bind, ifEnds_get, ifEnds_modify]
    have drawn : s.Onward I { s with generator := s.generator.unit.2 } :=
      ⟨ok, fun _ visited => visited⟩
    exact drawn.then_ifEnds (ih _ drawn.holds)
  | enter c k ih =>
    simp only [Graph.runProgram, ifEnds_bind, ifEnds_modify]
    have entered : s.Onward I { s with contexts := c } := ⟨ok, fun _ visited => visited⟩
    exact entered.then_ifEnds (ih entered.holds)
  | keep key v k ih =>
    simp only [Graph.runProgram, ifEnds_bind, ifEnds_modify]
    have kept : s.Onward I { s with kept := s.kept.insert (owner, key) v } :=
      ⟨ok, fun _ visited => visited⟩
    exact kept.then_ifEnds (ih kept.holds)
  | record d k ih =>
    simp only [Graph.runProgram, ifEnds_bind, ifEnds_modify]
    have noted : s.Onward I (s.record d) := (Session.Onward.refl ok).record d
    exact noted.then_ifEnds (ih noted.holds)

theorem buildAll (h : above.Preserves I) (outputs : List SocketId) (ok : I s.stored s.built) :
    IfEnds (Graph.buildAll above outputs) s fun _ s' =>
      s.Onward I s' ∧ ∀ o ∈ outputs, o.block ∈ s'.built := by
  induction outputs generalizing s with
  | nil => exact (ifEnds_pure ..).2 ⟨.refl ok, fun _ mem => (List.not_mem_nil mem).elim⟩
  | cons o rest ih =>
    rw [Graph.buildAll, ifEnds_bind]
    refine (h.build _ s ok).mono ?_
    rintro _ s' ⟨onward, visited⟩
    refine (ih onward.holds).mono ?_
    rintro _ s'' ⟨further, others⟩
    refine ⟨onward.trans further, fun o' mem => ?_⟩
    rcases List.mem_cons.1 mem with rfl | mem
    · exact further.built _ visited
    · exact others o' mem

variable (lasts : g.Lasts I)
include lasts

theorem buildNode (h : above.Preserves I) {id : BlockId} {node : Node} (hn : g.node? id = some node)
    (ok : I s.stored s.built) : IfEnds (g.buildNode above id node) s fun _ s' => s.Onward I s' := by
  rw [Graph.buildNode, ifEnds_bind]
  refine (h.buildAll _ ok).mono ?_
  rintro _ t ⟨onward, feeders⟩
  split
  · simp only [keepingContexts, ifEnds_bind, ifEnds_get, ifEnds_modify, ifEnds_pure]
    intro plan t' run
    have further := h.runProgram id _ onward.holds plan t' run
    have peers : ∀ o ∈ node.peers, o.block ∈ t'.built := fun o mem =>
      further.built _ (feeders o mem)
    rw [Session.follow_eq]
    exact ⟨lasts.planned above id node t t' plan hn run peers further.holds,
      (onward.trans further).built⟩
  · rw [ifEnds_modify, Session.storeNulls_eq]
    obtain ⟨⟨stored, built, -⟩, -, -⟩ :=
      Session.foldl_record (fun p => .unconnectedInput id node.name p.spec.name) node.missingInputs t
    refine ⟨?_, fun b visited => built ▸ onward.built b visited⟩
    refine lasts.nulls id _ _ ?_
    rw [stored, built]
    exact onward.holds

theorem buildBlockWith (h : above.Preserves I) (id : BlockId) (ok : I s.stored s.built) :
    IfEnds (g.buildBlockWith above id) s fun _ s' => s.Onward I s' ∧ id ∈ s'.built := by
  simp only [Graph.buildBlockWith, ifEnds_bind, ifEnds_get]
  split
  · rename_i known
    exact (ifEnds_pure ..).2 ⟨.refl ok, List.contains_iff_mem.1 known⟩
  · let noted : Session := { s with built := id :: s.built }
    have start : s.Onward I noted :=
      ⟨lasts.visited _ _ id ok, fun b visited => List.mem_cons_of_mem id visited⟩
    have visited : id ∈ noted.built := List.mem_cons_self ..
    rw [ifEnds_bind, ifEnds_modify]
    split
    · exact (ifEnds_pure ..).2 ⟨start, visited⟩
    · rename_i node hn
      exact (h.buildNode lasts hn (s := noted) start.holds).mono fun _ s' onward =>
        ⟨start.trans onward, onward.built id visited⟩

theorem readOutputWith (h : above.Preserves I) (p : SocketId) (ok : I s.stored s.built) :
    IfEnds (g.readOutputWith above p) s fun _ s' => s.Onward I s' := by
  rw [Graph.readOutputWith, ifEnds_bind]
  refine (h.buildBlockWith lasts _ ok).mono ?_
  rintro _ s' ⟨onward, -⟩
  simp only [ifEnds_bind, ifEnds_get]
  split
  · exact (ifEnds_pure ..).2 onward
  · exact (ifEnds_pure ..).2 onward
  · exact onward.then_ifEnds (h.runProgram _ _ onward.holds)

end Supplier.Preserves

namespace Graph.Lasts
variable {g : Graph} {I : List (SocketId × Stored) → List BlockId → Prop}

theorem supplierWithin (lasts : g.Lasts I) (depth : Nat) : (g.supplierWithin depth).Preserves I := by
  induction depth with
  | zero => exact ⟨fun _ _ _ => ifEnds_failure _, fun _ _ _ => ifEnds_failure _⟩
  | succ depth ih =>
    exact ⟨fun id _ ok => ih.buildBlockWith lasts id ok, fun p _ ok => ih.readOutputWith lasts p ok⟩

theorem supplier (lasts : g.Lasts I) : g.supplier.Preserves I := lasts.supplierWithin _

theorem inPass (lasts : g.Lasts I) (start : I [] []) {s : Session} (h : g.InPass s) :
    I s.stored s.built := by
  induction h with
  | start config => exact start
  | enter | draw => rename_i ih; exact ih
  | visit id _ ih => exact lasts.visited _ _ id ih
  | record d _ ih => exact ((Session.Onward.refl ih).record d).holds
  | build _ run ih => exact (lasts.supplier.build _ _ ih _ _ run).1.holds
  | read _ run ih => exact (lasts.supplier.read _ _ ih _ _ run).holds

end Graph.Lasts

theorem Graph.lasts_trivial (g : Graph) : g.Lasts fun _ _ => True :=
  ⟨fun _ _ _ _ => True.intro, fun _ _ _ _ _ _ _ _ _ _ => True.intro, fun _ _ _ _ => True.intro⟩

theorem Graph.supplier_visits (g : Graph) : g.supplier.Preserves fun _ _ => True :=
  g.lasts_trivial.supplier

def Session.Fed (g : Graph) (s : Session) (id : BlockId) : Prop :=
  ∀ i o, g.peer? (.input id i) = some o → o.block ∈ s.built

theorem Graph.Wired.visited_of_peer? {g : Graph} (h : g.Wired) {id : BlockId} {n : Node}
    (hn : g.node? id = some n) {built : List BlockId} (visited : ∀ o ∈ n.peers, o.block ∈ built)
    {i : Nat} {o : SocketId} (peer : g.peer? (.input id i) = some o) : o.block ∈ built := by
  obtain ⟨n', hn', o', mem, same⟩ := (Graph.feeds_iff ..).1 (h.feeds_of_peer? peer)
  cases hn.symm.trans hn'
  exact same ▸ visited o' mem

/-- A program is stored of a block only once the blocks that feed it have been visited. -/
theorem Graph.Wired.lasts_fed {g : Graph} (h : g.Wired) :
    g.Lasts fun stored built => ∀ p owner program, stored.lookup p = some (.deferred owner program) →
      ∀ i o, g.peer? (.input p.block i) = some o → o.block ∈ built where
  visited stored built id ok p owner program found i o peer :=
    List.mem_cons_of_mem id (ok p owner program found i o peer)
  planned above id node s s' plan hn run peers ok p owner program found i o peer := by
    rcases Session.lookup_storing found with ⟨e, -, rfl, -⟩ | old
    · exact h.visited_of_peer? hn peers peer
    · exact ok p owner program old i o peer
  nulls id indices s ok p owner program found i o peer := by
    rcases Session.lookup_storing found with ⟨e, mem, rfl, same⟩ | old
    · obtain ⟨index, -, rfl⟩ := List.mem_map.1 mem
      cases same
    · exact ok p owner program old i o peer

theorem Graph.InPass.fed {g : Graph} {s : Session} (h : g.InPass s) (wired : g.Wired) {p : SocketId}
    {owner : BlockId} {program : Program Value}
    (found : s.stored.lookup p = some (.deferred owner program)) : s.Fed g p.block :=
  wired.lasts_fed.inPass (fun _ _ _ found => nomatch found) h p owner program found

end MeshFlow
