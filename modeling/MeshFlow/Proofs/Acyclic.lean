import Mathlib.Data.Finset.Card
import Mathlib.Data.List.Perm.Subperm
import MeshFlow.Proofs.Changes

set_option autoImplicit false

/-!
# Ancestors and cycles

The search for ancestors finds exactly what feeds a block, in every graph: what it finds feeds the
block, and what it has gone through is closed under suppliers, because every round that finds
anything uses up a connected input. Edits keep graphs free of cycles, since the one that could
close a cycle asks this search first. Without cycles the number of ancestors grows along every
connection, which bounds how deep a build goes.
-/
namespace MeshFlow.Graph

theorem Reaches.trans {g : Graph} {a b c : BlockId} (h : g.Reaches a b) (h' : g.Reaches b c) :
    g.Reaches a c := by
  induction h' with
  | single feeds => exact .tail h feeds
  | tail _ feeds ih => exact .tail ih feeds

theorem Reaches.head {g : Graph} {a b c : BlockId} (h : g.Feeds a b) (h' : g.Reaches b c) :
    g.Reaches a c :=
  Reaches.trans (.single h) h'

theorem reaches_iff (g : Graph) (a c : BlockId) :
    g.Reaches a c ↔ g.Feeds a c ∨ ∃ b, g.Reaches a b ∧ g.Feeds b c := by
  constructor
  · rintro (feeds | ⟨reaches, feeds⟩)
    · exact .inl feeds
    · exact .inr ⟨_, reaches, feeds⟩
  · rintro (feeds | ⟨b, reaches, feeds⟩)
    · exact .single feeds
    · exact .tail reaches feeds

theorem Reaches.mono {g g' : Graph} (le : ∀ a b, g.Feeds a b → g'.Feeds a b) {a b : BlockId}
    (h : g.Reaches a b) : g'.Reaches a b := by
  induction h with
  | single feeds => exact .single (le _ _ feeds)
  | tail _ feeds ih => exact .tail ih (le _ _ feeds)

theorem mem_suppliers_iff (g : Graph) (a b : BlockId) :
    a ∈ g.suppliers b ↔ ∃ n, g.node? b = some n ∧ ∃ p ∈ n.peers, p.block = a := by
  rw [suppliers]
  cases g.node? b <;> simp

theorem feeds_iff (g : Graph) (a b : BlockId) :
    g.Feeds a b ↔ ∃ n, g.node? b = some n ∧ ∃ p ∈ n.peers, p.block = a :=
  mem_suppliers_iff ..

theorem mem_peers_iff (n : Node) (o : SocketId) :
    o ∈ n.peers ↔ ∃ (index : Nat) (s : MeshFlow.Socket), n.inputs[index]? = some s ∧ s.peer = some o := by
  rw [Node.peers, List.mem_filterMap]
  constructor
  · rintro ⟨s, hs, peer⟩
    obtain ⟨index, hi⟩ := List.mem_iff_getElem?.1 hs
    exact ⟨index, s, hi, peer⟩
  · rintro ⟨index, s, hi, peer⟩
    exact ⟨s, List.mem_of_getElem? hi, peer⟩

theorem Linked.feeds_iff {g : Graph} (h : g.Linked) (a b : BlockId) :
    g.Feeds a b ↔ ∃ c ∈ g.connections, c.output.block = a ∧ c.input.block = b := by
  rw [Graph.feeds_iff]
  constructor
  · rintro ⟨n, hn, o, ho, rfl⟩
    obtain ⟨index, s, hs, peer⟩ := (mem_peers_iff ..).1 ho
    have socket : g.socket? ⟨b, .input, index⟩ = some s := by
      rw [socket?_of_node? hn]
      exact hs
    rw [h.peer_eq _ _ socket, feederIn_eq_some_iff h.one_feeder] at peer
    exact ⟨_, peer, rfl, rfl⟩
  · rintro ⟨⟨o, i⟩, hc, rfl, rfl⟩
    obtain ⟨-, side, -, exists_⟩ := h.ends _ hc
    obtain ⟨s, hs⟩ := Option.isSome_iff_exists.1 exists_
    have peer : s.peer = some o := by
      rw [h.peer_eq _ _ hs, feederIn_eq_some_iff h.one_feeder]
      exact hc
    obtain ⟨n, hn, hs⟩ := node?_of_socket? hs
    refine ⟨n, hn, o, (mem_peers_iff ..).2 ⟨i.index, s, ?_, peer⟩, rfl⟩
    rw [Node.socket?, show i.side = .input from side] at hs
    exact hs

theorem Wired.feeds_iff {g : Graph} (h : g.Wired) (a b : BlockId) :
    g.Feeds a b ↔ ∃ c ∈ g.connections, c.output.block = a ∧ c.input.block = b :=
  h.linked.feeds_iff a b

theorem nodup_eraseDups {α : Type} [BEq α] [LawfulBEq α] (xs : List α) :
    xs.eraseDups.Nodup := by
  match xs with
  | [] => exact List.nodup_nil
  | x :: rest =>
    rw [List.eraseDups_cons, List.nodup_cons]
    have : (rest.filter fun y => !y == x).length < rest.length + 1 :=
      Nat.lt_succ_of_le (List.length_filter_le ..)
    exact ⟨by simp, nodup_eraseDups _⟩
termination_by xs.length

theorem mem_newSuppliers_iff (g : Graph) (found latest : List BlockId) (a : BlockId) :
    a ∈ g.newSuppliers found latest ↔ (∃ b ∈ latest, g.Feeds a b) ∧ a ∉ found := by
  simp [newSuppliers, Feeds]

/-- How far a search for what reaches `target` has got: all it has found does, and it has gone
through all of it but the latest. -/
structure Searched (g : Graph) (target : BlockId) (found latest : List BlockId) : Prop where
  nodup : found.Nodup
  reaches : ∀ a ∈ found, g.Reaches a target
  direct : ∀ a, g.Feeds a target → a ∈ found
  latest_found : ∀ a ∈ latest, a ∈ found
  settled : ∀ b ∈ found, b ∉ latest → ∀ a, g.Feeds a b → a ∈ found

theorem Searched.start (g : Graph) (target : BlockId) :
    g.Searched target (g.suppliers target).eraseDups (g.suppliers target).eraseDups where
  nodup := nodup_eraseDups _
  reaches _ ha := .single (List.mem_eraseDups.1 ha)
  direct _ ha := List.mem_eraseDups.2 ha
  latest_found _ ha := ha
  settled _ hb away := absurd hb away

theorem Searched.step {g : Graph} {target : BlockId} {found latest : List BlockId}
    (h : g.Searched target found latest) :
    g.Searched target (g.newSuppliers found latest ++ found) (g.newSuppliers found latest) where
  nodup := by
    refine List.nodup_append.2 ⟨nodup_eraseDups _, h.nodup, ?_⟩
    rintro a ha b hb rfl
    exact ((mem_newSuppliers_iff ..).1 ha).2 hb
  reaches a ha := by
    rcases List.mem_append.1 ha with new | old
    · obtain ⟨⟨b, hb, feeds⟩, -⟩ := (mem_newSuppliers_iff ..).1 new
      exact .head feeds (h.reaches b (h.latest_found b hb))
    · exact h.reaches a old
  direct a ha := List.mem_append_right _ (h.direct a ha)
  latest_found a ha := List.mem_append_left _ ha
  settled b hb away a feeds := by
    rcases List.mem_append.1 hb with new | old
    · exact absurd new away
    · by_cases known : a ∈ found
      · exact List.mem_append_right _ known
      · by_cases recent : b ∈ latest
        · exact List.mem_append_left _ ((mem_newSuppliers_iff ..).2 ⟨⟨b, recent, feeds⟩, known⟩)
        · exact absurd (h.settled b old recent a feeds) known

theorem Searched.complete {g : Graph} {target : BlockId} {found latest : List BlockId}
    (h : g.Searched target found latest) (none_new : g.newSuppliers found latest = []) {a : BlockId}
    (reaches : g.Reaches a target) : a ∈ found := by
  have closed : ∀ b ∈ found, ∀ a, g.Feeds a b → a ∈ found := by
    intro b hb a feeds
    by_cases recent : b ∈ latest
    · by_contra unknown
      have : a ∈ g.newSuppliers found latest :=
        (mem_newSuppliers_iff ..).2 ⟨⟨b, recent, feeds⟩, unknown⟩
      simp [none_new] at this
    · exact h.settled b hb recent a feeds
  have back : ∀ b, g.Reaches a b → b = target ∨ b ∈ found → a ∈ found := by
    intro b hab
    induction hab with
    | single feeds =>
      rintro (rfl | hb)
      · exact h.direct _ feeds
      · exact closed _ hb _ feeds
    | tail _ feeds ih =>
      rintro (rfl | hb)
      · exact ih (.inr (h.direct _ feeds))
      · exact ih (.inr (closed _ hb _ feeds))
  exact back target reaches (.inl rfl)

def feeders (g : Graph) : List BlockId := (g.nodes.flatMap fun (_, n) => n.peers).map (·.block)

theorem length_feeders (g : Graph) : g.feeders.length = g.connectedInputs := by
  rw [feeders, List.length_map, connectedInputs]

theorem Feeds.mem_feeders {g : Graph} {a b : BlockId} (h : g.Feeds a b) : a ∈ g.feeders := by
  obtain ⟨n, hn, p, hp, rfl⟩ := (Graph.feeds_iff ..).1 h
  exact List.mem_map_of_mem (List.mem_flatMap.2 ⟨(b, n), mem_of_lookup hn, hp⟩)

theorem Reaches.mem_feeders {g : Graph} {a b : BlockId} (h : g.Reaches a b) : a ∈ g.feeders := by
  induction h with
  | single feeds => exact feeds.mem_feeders
  | tail _ _ ih => exact ih

/-- The rounds left are enough: each one that finds anything finds another feeder. -/
theorem Searched.mem_closeAbove_iff {g : Graph} {target : BlockId} (a : BlockId) (rounds : Nat) :
    ∀ {found latest : List BlockId}, g.Searched target found latest →
      g.connectedInputs < found.length + rounds →
      (a ∈ g.closeAbove rounds found latest ↔ g.Reaches a target) := by
  induction rounds with
  | zero =>
    intro found latest h enough
    have sub : found ⊆ g.feeders := fun b hb => (h.reaches b hb).mem_feeders
    have : found.length ≤ g.feeders.length := (h.nodup.subperm sub).length_le
    rw [length_feeders] at this
    omega
  | succ rounds ih =>
    intro found latest h enough
    rw [closeAbove]
    split
    · rename_i none_new
      exact ⟨h.reaches a, h.complete (List.isEmpty_iff.1 none_new)⟩
    · rename_i more
      apply ih h.step
      have : 0 < (g.newSuppliers found latest).length := by
        rw [List.length_pos_iff]
        simpa [List.isEmpty_iff] using more
      rw [List.length_append]
      omega

theorem mem_ancestors_iff (g : Graph) (a b : BlockId) : a ∈ g.ancestors b ↔ g.Reaches a b :=
  (Searched.start g b).mem_closeAbove_iff a _ (by omega)

theorem isAncestorOf_iff (g : Graph) (a b : BlockId) : g.isAncestorOf a b ↔ g.Reaches a b := by
  rw [isAncestorOf, List.contains_iff_mem, mem_ancestors_iff]

def Acyclic (g : Graph) : Prop := ∀ a, ¬ g.Reaches a a

theorem Acyclic.of_le {g g' : Graph} (h : g.Acyclic) (le : ∀ a b, g'.Feeds a b → g.Feeds a b) :
    g'.Acyclic :=
  fun a cycle => h a (cycle.mono le)

theorem hierarchy_eq_compatible_iff (g : Graph) (o i : SocketId) :
    g.hierarchy o i = .compatible ↔ ¬ (i.block = o.block ∨ g.Reaches i.block o.block) := by
  rw [hierarchy, ← isAncestorOf_iff]
  split <;> simp_all

theorem hierarchy_eq_issue_iff (g : Graph) (o i : SocketId) :
    g.hierarchy o i = .hierarchyIssue ↔ i.block = o.block ∨ g.Reaches i.block o.block := by
  rw [hierarchy, ← isAncestorOf_iff]
  split <;> simp_all

/-- A graph that feeds as another one does, and one pair of blocks besides. -/
def FeedsBesides (g g' : Graph) (x y : BlockId) : Prop :=
  ∀ a b, g'.Feeds a b ↔ g.Feeds a b ∨ (a = x ∧ b = y)

theorem FeedsBesides.reaches {g g' : Graph} {x y : BlockId} (h : g.FeedsBesides g' x y)
    {a b : BlockId} (reaches : g'.Reaches a b) :
    g.Reaches a b ∨ ((a = x ∨ g.Reaches a x) ∧ (b = y ∨ g.Reaches y b)) ∨
      (a = x ∨ g.Reaches a x) ∧ g.Reaches y x := by
  induction reaches with
  | single feeds =>
    rcases (h _ _).1 feeds with old | ⟨rfl, rfl⟩
    · exact .inl (.single old)
    · exact .inr (.inl ⟨.inl rfl, .inl rfl⟩)
  | @tail b c _ feeds ih =>
    rcases (h _ _).1 feeds with old | ⟨rfl, rfl⟩
    · rcases ih with before | ⟨start, rfl | after⟩ | closed
      · exact .inl (.tail before old)
      · exact .inr (.inl ⟨start, .inr (.single old)⟩)
      · exact .inr (.inl ⟨start, .inr (.tail after old)⟩)
      · exact .inr (.inr closed)
    · rcases ih with before | ⟨start, -⟩ | closed
      · exact .inr (.inl ⟨.inr before, .inl rfl⟩)
      · exact .inr (.inl ⟨start, .inl rfl⟩)
      · exact .inr (.inl ⟨closed.1, .inl rfl⟩)

theorem FeedsBesides.acyclic_iff {g g' : Graph} {x y : BlockId} (h : g.FeedsBesides g' x y)
    (acyclic : g.Acyclic) : g'.Acyclic ↔ ¬ (y = x ∨ g.Reaches y x) := by
  have old : ∀ a b, g.Feeds a b → g'.Feeds a b := fun a b feeds => (h a b).2 (.inl feeds)
  have new : g'.Feeds x y := (h x y).2 (.inr ⟨rfl, rfl⟩)
  constructor
  · rintro acyclic' (rfl | back)
    · exact acyclic' _ (.single new)
    · exact acyclic' x (.head new (back.mono old))
  · intro open_ a cycle
    rcases h.reaches cycle with before | ⟨toX, fromY⟩ | ⟨-, back⟩
    · exact acyclic a before
    · rcases toX with rfl | toX
      · rcases fromY with rfl | fromY
        · exact open_ (.inl rfl)
        · exact open_ (.inr fromY)
      · rcases fromY with rfl | fromY
        · exact open_ (.inr toX)
        · exact open_ (.inr (fromY.trans toX))
    · exact open_ (.inr back)

theorem Linked.feedsBesides {g g' : Graph} (h : g.Linked) (h' : g'.Linked) {o i : SocketId}
    (connections : g'.connections = g.connections ++ [⟨o, i⟩]) :
    g.FeedsBesides g' o.block i.block := by
  intro a b
  rw [h'.feeds_iff, h.feeds_iff, connections]
  simp only [List.mem_append, List.mem_singleton]
  constructor
  · rintro ⟨c, hc | rfl, rfl, rfl⟩
    · exact .inl ⟨c, hc, rfl, rfl⟩
    · exact .inr ⟨rfl, rfl⟩
  · rintro (⟨c, hc, rfl, rfl⟩ | ⟨rfl, rfl⟩)
    · exact ⟨c, .inl hc, rfl, rfl⟩
    · exact ⟨_, .inr rfl, rfl, rfl⟩

theorem Acyclic.apply {g : Graph} (h : g.Acyclic) (wired : g.Wired) {e : Edit}
    (fits : e.Fits g) : (e.apply g).Acyclic := by
  obtain ⟨wired', after⟩ := wired.apply e fits
  generalize hcs : (e.apply g).connections = cs at after
  cases after with
  | kept keep =>
    refine h.of_le fun a b feeds => ?_
    rw [wired'.feeds_iff, hcs] at feeds
    obtain ⟨c, hc, ends⟩ := feeds
    exact (wired.feeds_iff a b).2 ⟨c, List.mem_of_mem_filter hc, ends⟩
  | made o i _ _ passes =>
    rw [(wired.linked.feedsBesides wired'.linked hcs).acyclic_iff h]
    exact (hierarchy_eq_compatible_iff ..).1 passes

theorem Reachable.acyclic {g : Graph} (h : g.Reachable) : g.Acyclic := by
  refine ReachableBy.invariant ?_ ?_ h
  · intro a cycle
    obtain ⟨b, feeds⟩ : ∃ b, empty.Feeds b a := by
      rcases (reaches_iff ..).1 cycle with feeds | ⟨b, -, feeds⟩
      · exact ⟨a, feeds⟩
      · exact ⟨b, feeds⟩
    obtain ⟨n, hn, -⟩ := (feeds_iff ..).1 feeds
    simp [empty, node?] at hn
  · intro g e reached fits acyclic
    exact acyclic.apply (Reachable.wired reached) fits

/-- How many ancestors a block has; it grows along every connection. -/
def height (g : Graph) (id : BlockId) : Nat := (g.ancestors id).toFinset.card

theorem Acyclic.height_lt {g : Graph} (h : g.Acyclic) {a b : BlockId} (feeds : g.Feeds a b) :
    g.height a < g.height b := by
  apply Finset.card_lt_card
  refine Finset.ssubset_iff_subset_ne.2 ⟨?_, ?_⟩
  · intro x hx
    rw [List.mem_toFinset, mem_ancestors_iff] at hx ⊢
    exact .tail hx feeds
  · intro same
    have : a ∈ (g.ancestors b).toFinset := by
      rw [List.mem_toFinset, mem_ancestors_iff]
      exact .single feeds
    rw [← same, List.mem_toFinset, mem_ancestors_iff] at this
    exact h a this

theorem Wired.hasBlock_of_reaches {g : Graph} (h : g.Wired) {a b : BlockId}
    (reaches : g.Reaches a b) : g.hasBlock a := by
  induction reaches with
  | single feeds =>
    obtain ⟨c, hc, rfl, -⟩ := (h.feeds_iff ..).1 feeds
    exact (h.blocks hc).1
  | tail _ _ ih => exact ih

theorem Wired.ancestors_subset {g : Graph} (h : g.Wired) (id : BlockId) :
    (g.ancestors id).toFinset ⊆ (g.nodes.map (·.1)).toFinset := by
  intro x hx
  rw [List.mem_toFinset, mem_ancestors_iff] at hx
  obtain ⟨n, hn⟩ := Option.isSome_iff_exists.1 (h.hasBlock_of_reaches hx)
  rw [List.mem_toFinset]
  exact List.mem_map_of_mem (mem_of_lookup hn)

theorem card_blocks_le_size (g : Graph) : (g.nodes.map (·.1)).toFinset.card ≤ g.size :=
  calc (g.nodes.map (·.1)).toFinset.card ≤ (g.nodes.map (·.1)).length := List.toFinset_card_le _
    _ = g.size := List.length_map ..

theorem Wired.height_le_size {g : Graph} (h : g.Wired) (id : BlockId) : g.height id ≤ g.size :=
  (Finset.card_le_card (h.ancestors_subset id)).trans g.card_blocks_le_size

theorem Wired.height_lt_size {g : Graph} (h : g.Wired) (acyclic : g.Acyclic) {id : BlockId}
    (has : g.hasBlock id) : g.height id < g.size := by
  refine Nat.lt_of_lt_of_le (Finset.card_lt_card ?_) g.card_blocks_le_size
  refine Finset.ssubset_iff_subset_ne.2 ⟨h.ancestors_subset id, fun same => ?_⟩
  obtain ⟨n, hn⟩ := Option.isSome_iff_exists.1 has
  have own : id ∈ (g.nodes.map (·.1)).toFinset :=
    List.mem_toFinset.2 (List.mem_map_of_mem (mem_of_lookup hn))
  rw [← same, List.mem_toFinset, mem_ancestors_iff] at own
  exact acyclic id own

theorem connectIf_of_free (check : SocketId → SocketId → Compatibility) {g : Graph}
    {a b o i : SocketId} (ends : g.Oriented a b o i) {target : MeshFlow.Socket}
    (ht : g.socket? i = some target) (free : target.peer = none) :
    g.connectIf check a b = if check o i = .compatible then .ok (g.link o i)
      else .error (.incompatible (check o i) o i) := by
  rw [connectIf, (orient_eq_ok_iff ..).2 ends]
  simp only [bind, Except.bind, (requireSocket_eq_ok_iff ..).2 ht, free, Option.isSome_none,
    Bool.false_eq_true, if_false]
  cases check o i <;> rfl

theorem Wired.acyclic_link_iff {g : Graph} (h : g.Wired) (acyclic : g.Acyclic)
    {a b o i : SocketId} (ends : g.Oriented a b o i) {target : MeshFlow.Socket}
    (ht : g.socket? i = some target) (free : target.peer = none) :
    (g.link o i).Acyclic ↔ ¬ (i.block = o.block ∨ g.Reaches i.block o.block) := by
  have linked : (g.link o i).Wired := h.link ends.output ends.input ends.output_exists ht free
  exact (h.linked.feedsBesides linked.linked rfl).acyclic_iff acyclic

/-- In every graph that can be reached, feeding is free of cycles, so that being an ancestor is a
strict partial order, and an output is refused as the feeder of a free input exactly where the
connection would close a cycle. -/
theorem Reachable.refused_iff_cycle {g : Graph} (h : g.Reachable) :
    g.Acyclic ∧
    (∀ a b, g.Feeds a b ↔ ∃ c ∈ g.connections, c.output.block = a ∧ c.input.block = b) ∧
    (∀ a b, g.isAncestorOf a b ↔ g.Reaches a b) ∧
    (∀ a, ¬ g.isAncestorOf a a) ∧
    (∀ a b c, g.isAncestorOf a b → g.isAncestorOf b c → g.isAncestorOf a c) ∧
    ∀ a b o i target, g.Oriented a b o i → g.socket? i = some target → target.peer = none →
      (g.connectUnchecked a b = .error (.incompatible .hierarchyIssue o i) ↔
        i.block = o.block ∨ g.Reaches i.block o.block) ∧
      (g.connectUnchecked a b = .error (.incompatible .hierarchyIssue o i) ↔
        ¬ (g.link o i).Acyclic) ∧
      (g.connectUnchecked a b = .ok (g.link o i) ↔ (g.link o i).Acyclic) := by
  have wired := Reachable.wired h
  have acyclic := Reachable.acyclic h
  refine ⟨acyclic, wired.feeds_iff, g.isAncestorOf_iff, ?_, ?_, ?_⟩
  · intro a
    rw [isAncestorOf_iff]
    exact acyclic a
  · intro a b c
    simp only [isAncestorOf_iff]
    exact Reaches.trans
  · intro a b o i target ends ht free
    have closes := wired.acyclic_link_iff acyclic ends ht free
    rw [closes, not_not, connectUnchecked, connectIf_of_free _ ends ht free]
    by_cases back : i.block = o.block ∨ g.Reaches i.block o.block
    · have refused := (hierarchy_eq_issue_iff g o i).2 back
      simp [refused, back]
    · have passes := (hierarchy_eq_compatible_iff g o i).2 back
      simp [passes, back]

def row : Graph :=
  [.add "first" (.computeNormals true), .add "second" (.computeNormals true),
    .add "third" (.computeNormals true), .connect (.output 0 0) (.input 1 0),
    .connectUnchecked (.output 1 0) (.input 2 0)].foldl Edit.apply .empty

theorem reachable_row : row.Reachable :=
  ReachableBy.foldl .empty _ (by decide +kernel)

theorem refused_in_row :
    row.connectUnchecked (.output 2 0) (.input 0 0)
        = .error (.incompatible .hierarchyIssue (.output 2 0) (.input 0 0)) ∧
      ¬ (row.link (.output 2 0) (.input 0 0)).Acyclic := by
  have ends : row.Oriented (.output 2 0) (.input 0 0) (.output 2 0) (.input 0 0) :=
    ⟨.inl ⟨rfl, rfl⟩, rfl, rfl, by decide +kernel, by decide +kernel⟩
  obtain ⟨-, -, ancestors, -, -, refused⟩ := Reachable.refused_iff_cycle reachable_row
  have back : row.Reaches 0 2 := (ancestors 0 2).1 (by decide +kernel)
  obtain ⟨reaches, cycle, -⟩ := refused _ _ _ _ _ ends rfl rfl
  have error := reaches.2 (.inr back)
  exact ⟨error, cycle.1 error⟩

end MeshFlow.Graph
