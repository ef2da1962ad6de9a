import MeshFlow.Proofs.Acyclic
import MeshFlow.Proofs.Restoring
import MeshFlow.Proofs.Running

set_option autoImplicit false

/-!
# What a pass comes to

Claims about everything that a pass yields, given once for all blocks. A session bears the claims
out while some blocks are still being built; running a program keeps that and changes nothing that
was built, and building a block keeps it and adds what is above the block. Both end, since every
step goes to a block of less height.
-/
namespace MeshFlow

def Supply.stored (owner : BlockId) : Supply → Stored
  | .value v => .value v
  | .onRead program => .deferred owner program

/-- What is claimed of everything that a pass over a graph yields. -/
structure Facts where
  /-- Of the values of an output under given contexts. -/
  output : SocketId → Contexts → Value → Prop
  /-- Of the values that a block keeps under a key. -/
  kept : BlockId → Int → Value → Prop
  /-- Of what a block hands over as the result of the pass, if it does. -/
  result : BlockId → Option Value → Prop
  /-- Of how many vertices there are where an index does not fit. -/
  overflows : Nat → Prop

namespace Facts
variable (F : Facts) (g : Graph)

/-- What the claims say of the values of an input. -/
def input (p : SocketId) (c : Contexts) (v : Value) : Prop :=
  match g.socket? p with
  | none => v = .null
  | some socket =>
    match socket.peer with
    | some output => F.output output c v
    | none => v = socket.default?.getD .null

/-- What the claims let the programs of a block know. -/
def answers (id : BlockId) : Answers where
  input i := F.input g (.input id i)
  connected i := g.isConnected (.input id i)
  kept := F.kept id

def Supplies (id : BlockId) (index : Nat) : Supply → Prop
  | .value v => ∀ c, F.output (.output id index) c v
  | .onRead program => ∀ c,
    program.Always (F.answers g id) (fun v _ => F.output (.output id index) c v) c

/-- A plan of a block yields what is claimed. -/
structure Plans (id : BlockId) (plan : Plan) : Prop where
  outputs : ∀ entry ∈ plan.outputs, F.Supplies g id entry.1 entry.2
  others : ∀ index, (∀ supply, (index, supply) ∉ plan.outputs) →
    ∀ c, F.output (.output id index) c .null
  result : F.result id plan.result

/-- The claims hold of every block if they hold of those that feed it. -/
structure Hold : Prop where
  missing : ∀ id n, g.node? id = some n → n.missingInputs.isEmpty = false →
    (∀ index c, F.output (.output id index) c .null) ∧ F.result id none
  planned : ∀ id n, g.node? id = some n → n.missingInputs.isEmpty →
    (n.block.plan id n.name).Always (F.answers g id) (fun plan _ => F.Plans g id plan) {}

/-- What is stored for an output yields what is claimed, and is read in a scope. -/
def Stores (p : SocketId) : Stored → Prop
  | .value v => ∀ c, F.output p c v
  | .deferred owner program => owner = p.block ∧
    ∀ c, program.Always (F.answers g owner) (fun v c' => F.output p c v ∧ c' = c) c

variable {F g}

theorem Supplies.stores {id : BlockId} {index : Nat} {supply : Supply}
    (h : F.Supplies g id index supply) (restores : supply.Restores) :
    F.Stores g (.output id index) (supply.stored id) := by
  cases supply with
  | value v => exact h
  | onRead program => exact ⟨rfl, fun c => (h c).and (restores _ c)⟩

end Facts

/-- A session bears the claims out, but for the blocks `pending`, which are still being built. -/
structure Bears (F : Facts) (g : Graph) (pending : List BlockId) (s : Session) : Prop where
  stored : ∀ p x, s.stored.lookup p = some x → F.Stores g p x
  absent : ∀ p, p.side = .output → p.block ∈ s.built → p.block ∉ pending →
    s.stored.lookup p = none → ∀ c, F.output p c .null
  suppliers : ∀ id ∈ s.built, id ∉ pending → ∀ a, g.Feeds a id → a ∈ s.built ∧ a ∉ pending
  kept : ∀ id key v, s.kept[(id, key)]? = some v → F.kept id key v
  result : ∀ id ∈ s.built, id ∉ pending → F.result id none ∨ s.result.isSome

structure Unbuilt (s s' : Session) : Prop where
  stored : s'.stored = s.stored
  built : s'.built = s.built
  result : s'.result = s.result

theorem Unbuilt.refl (s : Session) : Unbuilt s s := ⟨rfl, rfl, rfl⟩

theorem Unbuilt.trans {s s' s'' : Session} (h : Unbuilt s s') (h' : Unbuilt s' s'') :
    Unbuilt s s'' :=
  ⟨h'.stored.trans h.stored, h'.built.trans h.built, h'.result.trans h.result⟩

theorem Session.unbuilt_record (s : Session) (d : Diagnostic) : Unbuilt s (s.record d) := by
  rw [Session.record]
  split
  · exact .refl s
  · exact ⟨rfl, rfl, rfl⟩

theorem Session.kept_record (s : Session) (d : Diagnostic) : (s.record d).kept = s.kept := by
  rw [Session.record]
  split <;> rfl

section
variable {F : Facts} {g : Graph} {pending : List BlockId} {s s' : Session}

theorem Bears.of_same (h : Bears F g pending s) (stored : s'.stored = s.stored)
    (built : s'.built = s.built) (result : s'.result = s.result)
    (kept : ∀ id key v, s'.kept[(id, key)]? = some v → F.kept id key v) :
    Bears F g pending s' where
  stored := by
    rw [stored]
    exact h.stored
  absent := by
    rw [stored, built]
    exact h.absent
  suppliers := by
    rw [built]
    exact h.suppliers
  kept := kept
  result := by
    rw [built, result]
    exact h.result

theorem Bears.record (h : Bears F g pending s) (d : Diagnostic) :
    Bears F g pending (s.record d) := by
  obtain ⟨stored, built, result⟩ := s.unbuilt_record d
  refine h.of_same stored built result ?_
  rw [s.kept_record]
  exact h.kept

theorem Facts.kept_insert {kept : Std.HashMap (BlockId × Int) Value}
    (h : ∀ id key v, kept[(id, key)]? = some v → F.kept id key v) {id : BlockId} {key : Int}
    {v : Value} (fact : F.kept id key v) (id' : BlockId) (key' : Int) (v' : Value)
    (found : (kept.insert (id, key) v)[(id', key')]? = some v') : F.kept id' key' v' := by
  rw [Std.HashMap.getElem?_insert] at found
  split at found
  · rename_i same
    cases LawfulBEq.eq_of_beq (a := (id, key)) (b := (id', key')) same
    cases found
    exact fact
  · exact h id' key' v' found

theorem Bears.keep (h : Bears F g pending s) {id : BlockId} {key : Int} {v : Value}
    (fact : F.kept id key v) :
    Bears F g pending { s with kept := s.kept.insert (id, key) v } :=
  h.of_same rfl rfl rfl (Facts.kept_insert h.kept fact)

/-- Reads and running programs leave the session in order, with nothing built. -/
structure Goes (F : Facts) (g : Graph) (pending : List BlockId) (s s' : Session) : Prop where
  bears : Bears F g pending s'
  unbuilt : Unbuilt s s'

/-- A supplier yields what is claimed of blocks below a height that have been built. -/
structure Supplier.Reads (F : Facts) (g : Graph) (n : Nat) (above : Supplier) : Prop where
  build : ∀ id s, g.height id < n → id ∈ s.built →
    Ends (above.build id) s fun _ s' => s' = s
  read : ∀ p pending s, g.height p.block < n → Bears F g pending s → p.side = .output →
    p.block ∈ s.built → p.block ∉ pending →
    Ends (above.read p) s fun v s' =>
      Goes F g pending s s' ∧ s'.contexts = s.contexts ∧ F.output p s.contexts v

def Ready (g : Graph) (pending : List BlockId) (s : Session) (id : BlockId) : Prop :=
  ∀ a, g.Feeds a id → a ∈ s.built ∧ a ∉ pending

theorem Ready.of_same {id : BlockId} (h : Ready g pending s id) (built : s'.built = s.built) :
    Ready g pending s' id := by
  intro a feeds
  rw [built]
  exact h a feeds

theorem Goes.refl (h : Bears F g pending s) : Goes F g pending s s := ⟨h, .refl s⟩

theorem Goes.trans {s'' : Session} (h : Goes F g pending s s') (h' : Goes F g pending s' s'') :
    Goes F g pending s s'' :=
  ⟨h'.bears, h.unbuilt.trans h'.unbuilt⟩

variable {n : Nat} {above : Supplier}

theorem Graph.Wired.feeder {id : BlockId} {i : Nat} {socket : MeshFlow.Socket} {o : SocketId}
    (h : g.Wired) (hs : g.socket? (.input id i) = some socket) (peer : socket.peer = some o) :
    o.side = .output ∧ g.Feeds o.block id := by
  rw [h.peer_eq _ _ hs, feederIn_eq_some_iff h.one_feeder] at peer
  exact ⟨(h.ends _ peer).1, (h.feeds_iff ..).2 ⟨_, peer, rfl, rfl⟩⟩

theorem Graph.Wired.feeds_of_peer? (h : g.Wired) {id : BlockId} {i : Nat} {o : SocketId}
    (peer : g.peer? (.input id i) = some o) : g.Feeds o.block id := by
  rw [Graph.peer?, Option.bind_eq_some_iff] at peer
  obtain ⟨socket, hs, peer⟩ := peer
  exact (h.feeder hs peer).2

theorem Supplier.Reads.readInput (h : above.Reads F g n) (wired : g.Wired) (acyclic : g.Acyclic)
    {owner : BlockId} (low : g.height owner ≤ n) (ready : Ready g pending s owner)
    (bears : Bears F g pending s) (i : Nat) :
    Ends (g.readInput above (.input owner i)) s fun v s' =>
      Goes F g pending s s' ∧ s'.contexts = s.contexts ∧
        F.input g (.input owner i) s.contexts v := by
  unfold Graph.readInput Facts.input
  cases hs : g.socket? (.input owner i) with
  | none => exact (ends_pure ..).2 ⟨.refl bears, rfl, rfl⟩
  | some socket =>
    cases peer : socket.peer with
    | none =>
      simp only [peer]
      exact (ends_pure ..).2 ⟨.refl bears, rfl, rfl⟩
    | some o =>
      obtain ⟨side, feeds⟩ := wired.feeder hs peer
      obtain ⟨built, settled⟩ := ready _ feeds
      have below : g.height o.block < n := Nat.lt_of_lt_of_le (acyclic.height_lt feeds) low
      simp only [peer]
      exact h.read o pending s below bears side built settled

theorem Supplier.Reads.isVarying (h : above.Reads F g n) (wired : g.Wired) (acyclic : g.Acyclic)
    {owner : BlockId} (low : g.height owner ≤ n) (ready : Ready g pending s owner) (i : Nat) :
    Ends (g.isVarying above (.input owner i)) s fun _ s' => s' = s := by
  rw [Graph.isVarying]
  cases hp : g.peer? (.input owner i) with
  | none => exact (ends_pure ..).2 rfl
  | some o =>
    rw [Graph.peer?, Option.bind_eq_some_iff] at hp
    obtain ⟨socket, hs, peer⟩ := hp
    obtain ⟨-, feeds⟩ := wired.feeder hs peer
    have below : g.height o.block < n := Nat.lt_of_lt_of_le (acyclic.height_lt feeds) low
    simp only [ends_bind, ends_get, ends_pure]
    exact h.build _ s below (ready _ feeds).1

theorem Supplier.Reads.runs (h : above.Reads F g n) (wired : g.Wired) (acyclic : g.Acyclic)
    {owner : BlockId} (low : g.height owner ≤ n) (ready : Ready g pending s owner) :
    g.Runs above owner (F.answers g owner) (fun _ => True) (Goes F g pending s) where
  read i t goes := by
    refine (h.readInput wired acyclic low (ready.of_same goes.unbuilt.built) goes.bears i).mono
      fun v t' => ?_
    rintro ⟨goes', contexts, fact⟩
    exact ⟨goes.trans goes', contexts, fact⟩
  varying i t goes := by
    refine (h.isVarying wired acyclic low (ready.of_same goes.unbuilt.built) i).mono fun _ t' => ?_
    rintro rfl
    exact ⟨goes, rfl⟩
  connected _ := rfl
  enter _ _ goes := goes.trans ⟨goes.bears.of_same rfl rfl rfl goes.bears.kept, rfl, rfl, rfl⟩
  draw _ _ goes := goes.trans ⟨goes.bears.of_same rfl rfl rfl goes.bears.kept, rfl, rfl, rfl⟩
  record d t _ goes := goes.trans ⟨goes.bears.record d, t.unbuilt_record d⟩
  kept key v _ goes found := goes.bears.kept owner key v found
  keep _ _ _ goes fact := goes.trans ⟨goes.bears.keep fact, rfl, rfl, rfl⟩

theorem ends_keepingContexts {α : Type} (b : Build α) (post : α → Session → Prop) :
    Ends (keepingContexts b) s post ↔
      Ends b s fun a s' => post a { s' with contexts := s.contexts } := by
  simp only [keepingContexts, ends_bind, ends_get, ends_modify, ends_pure]

theorem Graph.buildBlockWith_of_built {id : BlockId} (built : id ∈ s.built) :
    Ends (g.buildBlockWith above id) s fun _ s' => s' = s := by
  simp only [Graph.buildBlockWith, ends_bind, ends_get, List.contains_iff_mem.2 built, if_true,
    ends_pure]

theorem Supplier.Reads.readOutputWith (h : above.Reads F g n) (wired : g.Wired)
    (acyclic : g.Acyclic) {p : SocketId} (low : g.height p.block ≤ n)
    (bears : Bears F g pending s) (side : p.side = .output) (built : p.block ∈ s.built)
    (settled : p.block ∉ pending) :
    Ends (g.readOutputWith above p) s fun v s' =>
      Goes F g pending s s' ∧ s'.contexts = s.contexts ∧ F.output p s.contexts v := by
  rw [Graph.readOutputWith, ends_bind]
  refine (Graph.buildBlockWith_of_built built).mono fun _ s' => ?_
  rintro rfl
  simp only [ends_bind, ends_get]
  cases hx : s'.stored.lookup p with
  | none => exact (ends_pure ..).2 ⟨.refl bears, rfl, bears.absent p side built settled hx _⟩
  | some x =>
    have stores := bears.stored p x hx
    cases x with
    | value v => exact (ends_pure ..).2 ⟨.refl bears, rfl, stores _⟩
    | deferred owner program =>
      obtain ⟨rfl, always⟩ := stores
      have ready : Ready g pending s' p.block := bears.suppliers _ built settled
      refine ((h.runs wired acyclic low ready).runProgram program (.refl bears)
        (Program.notes_of_all (fun _ => True.intro) _ _) (always _)).mono ?_
      rintro v t ⟨goes, fact, contexts⟩
      exact ⟨goes, contexts, fact⟩

theorem Graph.supplierWithin_reads (F : Facts) (wired : g.Wired) (acyclic : g.Acyclic) (n : Nat) :
    (g.supplierWithin n).Reads F g n := by
  induction n with
  | zero => exact ⟨fun _ _ low => absurd low (Nat.not_lt_zero _),
      fun _ _ _ low => absurd low (Nat.not_lt_zero _)⟩
  | succ n ih =>
    constructor
    · intro id s _ built
      exact Graph.buildBlockWith_of_built built
    · intro p pending s low bears side built settled
      exact ih.readOutputWith wired acyclic (Nat.le_of_lt_succ low) bears side built settled

def Session.storing (s : Session) (id : BlockId) (outputs : List (Nat × Supply)) : Session :=
  { s with
    stored := (outputs.map fun e => (.output id e.1, e.2.stored id)).reverse ++ s.stored }

theorem Session.foldl_store {α : Type} (place : α → SocketId) (x : α → Stored) (entries : List α)
    (s : Session) :
    entries.foldl (fun s a => s.store (place a) (x a)) s
      = { s with stored := (entries.map fun a => (place a, x a)).reverse ++ s.stored } := by
  induction entries generalizing s with
  | nil => rfl
  | cons a rest ih =>
    rw [List.foldl_cons, ih]
    simp [Session.store]

theorem Session.follow_eq (s : Session) (id : BlockId) (plan : Plan) :
    s.follow id plan
      = { s.storing id plan.outputs with result := plan.result <|> s.result } := by
  have stores : plan.outputs.foldl
        (fun s e => s.store (.output id e.1) (e.2.stored id)) s = s.storing id plan.outputs :=
    s.foldl_store ..
  have result : s.result = (s.storing id plan.outputs).result := rfl
  rw [result, ← stores]
  rfl

theorem Session.storeNulls_eq (s : Session) (id : BlockId) (outputs : Nat) :
    s.storeNulls id outputs
      = s.storing id ((List.range outputs).map fun i => (i, .value .null)) := by
  rw [Session.storeNulls, Session.foldl_store, Session.storing, List.map_map]
  rfl

theorem Session.lookup_storing {id : BlockId} {outputs : List (Nat × Supply)} {p : SocketId}
    {x : Stored} (h : (s.storing id outputs).stored.lookup p = some x) :
    (∃ e ∈ outputs, p = .output id e.1 ∧ x = e.2.stored id) ∨ s.stored.lookup p = some x := by
  rw [Session.storing, List.lookup_append, Option.or_eq_some_iff] at h
  rcases h with new | ⟨-, old⟩
  · obtain ⟨before, after, split, -⟩ := List.lookup_eq_some_iff.1 new
    have mem : (p, x) ∈ (outputs.map fun e => (SocketId.output id e.1, e.2.stored id)).reverse := by
      rw [split]
      simp
    rw [List.mem_reverse, List.mem_map] at mem
    obtain ⟨e, he, eq⟩ := mem
    cases eq
    exact .inl ⟨e, he, rfl, rfl⟩
  · exact .inr old

theorem Session.lookup_storing_none {id : BlockId} {outputs : List (Nat × Supply)} {p : SocketId}
    (h : (s.storing id outputs).stored.lookup p = none) :
    (∀ e ∈ outputs, p ≠ .output id e.1) ∧ s.stored.lookup p = none := by
  rw [Session.storing, List.lookup_append, Option.or_eq_none_iff] at h
  refine ⟨?_, h.2⟩
  rintro e he rfl
  have := List.lookup_eq_none_iff.1 h.1 (.output id e.1, e.2.stored id)
    (List.mem_reverse.2 (List.mem_map.2 ⟨e, he, rfl⟩))
  simp at this

theorem Bears.storing {id : BlockId} (h : Bears F g (id :: pending) s) (ready : Ready g pending s id)
    {outputs : List (Nat × Supply)}
    (stores : ∀ e ∈ outputs, F.Stores g (.output id e.1) (e.2.stored id))
    (others : ∀ index, (∀ supply, (index, supply) ∉ outputs) →
      ∀ c, F.output (.output id index) c .null)
    {result : Option Value} (handed : F.result id result) :
    Bears F g pending { s.storing id outputs with result := result <|> s.result } where
  stored p x hx := by
    rcases Session.lookup_storing hx with ⟨e, he, rfl, rfl⟩ | old
    · exact stores e he
    · exact h.stored p x old
  absent p side built settled hp := by
    obtain ⟨new, old⟩ := Session.lookup_storing_none hp
    by_cases own : p.block = id
    · obtain ⟨block, pside, index⟩ := p
      cases own
      cases side
      exact others index fun supply mem => new _ mem rfl
    · exact h.absent p side built (by simp [own, settled]) old
  suppliers b built settled a feeds := by
    by_cases own : b = id
    · subst own
      exact ready a feeds
    · obtain ⟨built', settled'⟩ := h.suppliers b built (by simp [own, settled]) a feeds
      exact ⟨built', fun mem => settled' (List.mem_cons_of_mem _ mem)⟩
  kept := h.kept
  result b built settled := by
    cases result with
    | some v => exact .inr rfl
    | none =>
      by_cases own : b = id
      · exact .inl (own ▸ handed)
      · exact h.result b built (by simp [own, settled])

/-- Building has gone on from one session to another, for blocks of a sort alone. -/
structure Grows (F : Facts) (new : BlockId → Prop) (s s' : Session) : Prop where
  old : ∀ b ∈ s.built, b ∈ s'.built
  only : ∀ b ∈ s'.built, b ∈ s.built ∨ new b
  result : s'.result = s.result ∨ ∃ b v, new b ∧ F.result b (some v) ∧ s'.result = some v

theorem Grows.of_same (new : BlockId → Prop) (built : s'.built = s.built)
    (result : s'.result = s.result ∨ ∃ b v, new b ∧ F.result b (some v) ∧ s'.result = some v) :
    Grows F new s s' where
  old b hb := by rwa [built]
  only b hb := .inl (by rwa [← built])
  result := result

theorem Grows.trans {new : BlockId → Prop} {s'' : Session} (h : Grows F new s s')
    (h' : Grows F new s' s'') : Grows F new s s'' where
  old b hb := h'.old b (h.old b hb)
  only b hb := by
    rcases h'.only b hb with early | late
    · exact h.only b early
    · exact .inr late
  result := by
    rcases h'.result with same | late
    · rw [same]
      exact h.result
    · exact .inr late

theorem Grows.mono {new new' : BlockId → Prop} (h : Grows F new s s') (le : ∀ b, new b → new' b) :
    Grows F new' s s' where
  old := h.old
  only b hb := (h.only b hb).imp_right (le b)
  result := h.result.imp_right fun ⟨b, v, fresh, fact⟩ => ⟨b, v, le b fresh, fact⟩

def Graph.UpTo (g : Graph) (id b : BlockId) : Prop := b = id ∨ g.Reaches b id

/-- A supplier builds blocks below a height while no step is under way, if they lead to all that is
pending. -/
def Supplier.Builds (F : Facts) (g : Graph) (n : Nat) (above : Supplier) : Prop :=
  ∀ id pending s, g.height id < n → g.hasBlock id → (∀ q ∈ pending, g.Reaches id q) →
    s.contexts = {} → Bears F g pending s →
    Ends (above.build id) s fun _ s' =>
      Bears F g pending s' ∧ s'.contexts = {} ∧ id ∈ s'.built ∧ Grows F (g.UpTo id) s s'

theorem Supplier.Builds.buildAll (h : above.Builds F g n) (wired : g.Wired) (acyclic : g.Acyclic)
    {id : BlockId} (low : g.height id ≤ n) (clear : ∀ q ∈ pending, g.Reaches id q)
    (outputs : List SocketId) :
    ∀ s, (∀ o ∈ outputs, g.Feeds o.block id) → s.contexts = {} → Bears F g (id :: pending) s →
      Ends (Graph.buildAll above outputs) s fun _ s' =>
        Bears F g (id :: pending) s' ∧ s'.contexts = {} ∧ (∀ o ∈ outputs, o.block ∈ s'.built) ∧
          Grows F (g.Reaches · id) s s' := by
  induction outputs with
  | nil =>
    intro s _ contexts bears
    exact (ends_pure ..).2 ⟨bears, contexts, by simp, .of_same _ rfl (.inl rfl)⟩
  | cons o rest ih =>
    intro s feeds contexts bears
    have first : g.Feeds o.block id := feeds o (List.mem_cons_self ..)
    have leads : ∀ q ∈ id :: pending, g.Reaches o.block q := by
      intro q hq
      rcases List.mem_cons.1 hq with rfl | hq
      · exact .single first
      · exact .head first (clear q hq)
    have below : g.height o.block < n := Nat.lt_of_lt_of_le (acyclic.height_lt first) low
    have has : g.hasBlock o.block := wired.hasBlock_of_reaches (.single first)
    rw [Graph.buildAll, ends_bind]
    refine (h _ _ s below has leads contexts bears).mono fun _ s' => ?_
    rintro ⟨bears', contexts', built, grows⟩
    refine (ih s' (fun p hp => feeds p (List.mem_cons_of_mem _ hp)) contexts' bears').mono
      fun _ s'' => ?_
    rintro ⟨bears'', contexts'', built', grows'⟩
    refine ⟨bears'', contexts'', ?_, (grows.mono ?_).trans grows'⟩
    · intro p hp
      rcases List.mem_cons.1 hp with rfl | hp
      · exact grows'.old _ built
      · exact built' p hp
    · rintro b (rfl | reaches)
      · exact .single first
      · exact .tail reaches first

theorem Session.foldl_record {α : Type} (d : α → Diagnostic) (entries : List α) (s : Session) :
    Unbuilt s (entries.foldl (fun s a => s.record (d a)) s) ∧
      (entries.foldl (fun s a => s.record (d a)) s).kept = s.kept ∧
      (entries.foldl (fun s a => s.record (d a)) s).contexts = s.contexts := by
  induction entries generalizing s with
  | nil => exact ⟨.refl s, rfl, rfl⟩
  | cons a rest ih =>
    obtain ⟨unbuilt, kept, contexts⟩ := ih (s.record (d a))
    exact ⟨(s.unbuilt_record _).trans unbuilt, kept.trans (s.kept_record _),
      contexts.trans (s.contexts_record _)⟩

theorem Session.mem_foldl_record {α : Type} (d : α → Diagnostic) (entries : List α) (s : Session)
    (e : Diagnostic) :
    e ∈ (entries.foldl (fun s a => s.record (d a)) s).diagnostics ↔
      e ∈ s.diagnostics ∨ ∃ a ∈ entries, e = d a := by
  induction entries generalizing s with
  | nil => simp
  | cons a rest ih =>
    rw [List.foldl_cons, ih, mem_record]
    simp [or_assoc]

theorem Bears.noting (h : Bears F g pending s) {id : BlockId} (fresh : id ∉ s.built) :
    Bears F g (id :: pending) { s with built := id :: s.built } where
  stored := h.stored
  absent p side built settled hp := by
    rw [List.mem_cons, not_or] at settled
    exact h.absent p side ((List.mem_cons.1 built).resolve_left settled.1) settled.2 hp
  suppliers b built settled a feeds := by
    rw [List.mem_cons, not_or] at settled
    obtain ⟨built', settled'⟩ :=
      h.suppliers b ((List.mem_cons.1 built).resolve_left settled.1) settled.2 a feeds
    refine ⟨List.mem_cons_of_mem _ built', ?_⟩
    rw [List.mem_cons, not_or]
    exact ⟨fun same => fresh (same ▸ built'), settled'⟩
  kept := h.kept
  result b built settled := by
    rw [List.mem_cons, not_or] at settled
    exact h.result b ((List.mem_cons.1 built).resolve_left settled.1) settled.2

theorem Supplier.Builds.buildNode (h : above.Builds F g n) (reads : above.Reads F g n)
    (hold : F.Hold g) (wired : g.Wired) (acyclic : g.Acyclic) {id : BlockId} {node : Node}
    (hn : g.node? id = some node) (low : g.height id ≤ n)
    (clear : ∀ q ∈ pending, g.Reaches id q) (contexts : s.contexts = {})
    (bears : Bears F g (id :: pending) s) :
    Ends (g.buildNode above id node) s fun _ s' =>
      Bears F g pending s' ∧ s'.contexts = {} ∧ Grows F (g.UpTo id) s s' := by
  have feeds : ∀ o ∈ node.peers, g.Feeds o.block id := fun o ho =>
    (Graph.feeds_iff ..).2 ⟨node, hn, o, ho, rfl⟩
  rw [Graph.buildNode, ends_bind]
  refine (h.buildAll wired acyclic low clear node.peers s feeds contexts bears).mono fun _ t => ?_
  rintro ⟨bears', contexts', built, grows⟩
  have ready : Ready g (id :: pending) t id := by
    intro a ha
    obtain ⟨node', hn', o, ho, same⟩ := (Graph.feeds_iff ..).1 ha
    rw [hn] at hn'
    cases hn'
    refine ⟨same ▸ built o ho, ?_⟩
    intro mem
    rcases List.mem_cons.1 mem with rfl | mem
    · exact acyclic _ (.single ha)
    · exact acyclic _ (.head ha (clear _ mem))
  have ready' : Ready g pending t id := fun a ha =>
    ⟨(ready a ha).1, fun mem => (ready a ha).2 (List.mem_cons_of_mem _ mem)⟩
  have grows : Grows F (g.UpTo id) s t := grows.mono fun b reaches => .inr reaches
  split
  · rename_i complete
    rw [ends_bind, ends_keepingContexts]
    have always := (hold.planned id node hn complete).and (node.block.plan_restores id node.name _ _)
    rw [← contexts'] at always
    refine ((reads.runs wired acyclic low ready).runProgram _ (.refl bears')
      (Program.notes_of_all (fun _ => True.intro) _ _) always).mono fun plan t' => ?_
    rintro ⟨goes, plans, restores⟩
    rw [ends_modify, Session.follow_eq]
    have after : Bears F g (id :: pending) { t' with contexts := t.contexts } :=
      goes.bears.of_same rfl rfl rfl goes.bears.kept
    have stored := after.storing (ready'.of_same goes.unbuilt.built)
      (fun e he => (plans.outputs e he).stores (restores e he)) plans.others plans.result
    refine ⟨stored, contexts', grows.trans (.of_same _ goes.unbuilt.built ?_)⟩
    have handed := plans.result
    cases result : plan.result with
    | none => exact .inl goes.unbuilt.result
    | some v => exact .inr ⟨id, v, .inl rfl, result ▸ handed, rfl⟩
  · rename_i incomplete
    rw [ends_modify, Session.storeNulls_eq]
    obtain ⟨unbuilt, kept, contexts''⟩ :=
      Session.foldl_record (fun p => .unconnectedInput id node.name p.spec.name) node.missingInputs t
    have recorded : Bears F g (id :: pending) _ :=
      bears'.of_same unbuilt.stored unbuilt.built unbuilt.result (kept ▸ bears'.kept)
    obtain ⟨null, handed⟩ := hold.missing id node hn (by simpa using incomplete)
    refine ⟨recorded.storing (ready'.of_same unbuilt.built) ?_ (fun index _ => null index) handed,
      contexts''.trans contexts', grows.trans (.of_same _ unbuilt.built (.inl unbuilt.result))⟩
    rintro e he
    obtain ⟨index, -, rfl⟩ := List.mem_map.1 he
    exact null index

theorem Graph.supplierWithin_builds (hold : F.Hold g) (wired : g.Wired) (acyclic : g.Acyclic)
    (n : Nat) : (g.supplierWithin n).Builds F g n := by
  induction n with
  | zero => exact fun _ _ _ low => absurd low (Nat.not_lt_zero _)
  | succ n ih =>
    intro id pending s low has clear contexts bears
    change Ends (g.buildBlockWith (g.supplierWithin n) id) s _
    by_cases built : id ∈ s.built
    · refine (Graph.buildBlockWith_of_built built).mono fun _ s' => ?_
      rintro rfl
      exact ⟨bears, contexts, built, .of_same _ rfl (.inl rfl)⟩
    · obtain ⟨node, hn⟩ := Option.isSome_iff_exists.1 has
      let noted : Session := { s with built := id :: s.built }
      have noted_bears : Bears F g (id :: pending) noted := bears.noting built
      simp only [Graph.buildBlockWith, ends_bind, ends_get, List.contains_iff_mem, built, if_false,
        ends_modify, hn]
      have reads := Graph.supplierWithin_reads F wired acyclic n
      refine (ih.buildNode (s := noted) reads hold wired acyclic hn (Nat.le_of_lt_succ low) clear
        contexts noted_bears).mono fun _ s' => ?_
      rintro ⟨bears', contexts', grows⟩
      have itself : Grows F (g.UpTo id) s noted := by
        refine ⟨fun b hb => List.mem_cons_of_mem _ hb, fun b hb => ?_, .inl rfl⟩
        rcases List.mem_cons.1 hb with rfl | old
        · exact .inr (.inl rfl)
        · exact .inl old
      exact ⟨bears', contexts', grows.old id (List.mem_cons_self ..), itself.trans grows⟩

end
end MeshFlow
