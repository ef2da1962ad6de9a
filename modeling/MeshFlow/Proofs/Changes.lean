import MeshFlow.Proofs.Wired

set_option autoImplicit false

/-!
# What every edit does

For each operation that can be refused, what it does where it is not; from these, that every edit
keeps the records of a graph in agreement, and what it does to the list of connections.
-/
namespace MeshFlow.Graph

theorem requireNode_eq_ok_iff (g : Graph) (id : BlockId) (n : Node) :
    g.requireNode id = .ok n ↔ g.node? id = some n := by
  rw [requireNode]
  cases g.node? id <;> simp

theorem requireSocket_eq_ok_iff (g : Graph) (p : SocketId) (s : MeshFlow.Socket) :
    g.requireSocket p = .ok s ↔ g.socket? p = some s := by
  rw [requireSocket, requireNode, socket?]
  cases g.node? p.block with
  | none => simp [bind, Except.bind]
  | some n =>
    simp only [bind, Except.bind, Option.bind_some]
    cases n.socket? p.side p.index <;> simp

/-- Two sockets that are an output and an input of the graph, in either order. -/
structure Oriented (g : Graph) (a b o i : SocketId) : Prop where
  either : (o = a ∧ i = b) ∨ (o = b ∧ i = a)
  output : o.side = .output
  input : i.side = .input
  output_exists : (g.socket? o).isSome
  input_exists : (g.socket? i).isSome

theorem orient_eq_ok_iff (g : Graph) (a b o i : SocketId) :
    g.orient a b = .ok (o, i) ↔ g.Oriented a b o i := by
  constructor
  · intro h
    rw [orient] at h
    cases ha : g.requireSocket a with
    | error e => simp [ha, bind, Except.bind] at h
    | ok sa =>
      cases hb : g.requireSocket b with
      | error e => simp [ha, hb, bind, Except.bind] at h
      | ok sb =>
        rw [requireSocket_eq_ok_iff] at ha hb
        simp only [(requireSocket_eq_ok_iff ..).2 ha, (requireSocket_eq_ok_iff ..).2 hb, bind,
          Except.bind] at h
        split at h
        · rename_i sideA sideB
          cases h
          exact ⟨.inl ⟨rfl, rfl⟩, sideA, sideB, by simp [ha], by simp [hb]⟩
        · rename_i sideA sideB
          cases h
          exact ⟨.inr ⟨rfl, rfl⟩, sideB, sideA, by simp [hb], by simp [ha]⟩
        · cases h
  · rintro ⟨either, output, input, ho, hi⟩
    obtain ⟨so, ho⟩ := Option.isSome_iff_exists.1 ho
    obtain ⟨si, hi⟩ := Option.isSome_iff_exists.1 hi
    rw [← requireSocket_eq_ok_iff] at ho hi
    rcases either with ⟨rfl, rfl⟩ | ⟨rfl, rfl⟩
    · simp [orient, ho, hi, bind, Except.bind, output, input]
    · simp [orient, ho, hi, bind, Except.bind, output, input]

theorem Wired.oriented {g : Graph} (h : g.Wired) {c : Connection} (hc : c ∈ g.connections) :
    g.Oriented c.output c.input c.output c.input := by
  obtain ⟨output, input, ho, hi⟩ := h.ends c hc
  exact ⟨.inl ⟨rfl, rfl⟩, output, input, ho, hi⟩

theorem connectIf_eq_ok_iff (check : SocketId → SocketId → Compatibility) (g g' : Graph)
    (a b : SocketId) :
    g.connectIf check a b = .ok g' ↔ ∃ o i target, g.Oriented a b o i ∧
      g.socket? i = some target ∧ target.peer = none ∧ check o i = .compatible ∧
      g' = g.link o i := by
  constructor
  · intro h
    rw [connectIf] at h
    cases ho : g.orient a b with
    | error e => simp [ho, bind, Except.bind] at h
    | ok ends =>
      obtain ⟨o, i⟩ := ends
      have oriented := (orient_eq_ok_iff ..).1 ho
      obtain ⟨target, ht⟩ := Option.isSome_iff_exists.1 oriented.input_exists
      simp only [ho, (requireSocket_eq_ok_iff ..).2 ht, bind, Except.bind] at h
      split at h
      · cases h
      · rename_i free
        split at h
        · rename_i passes
          cases h
          exact ⟨o, i, target, oriented, ht, by simpa using free, passes, rfl⟩
        · cases h
  · rintro ⟨o, i, target, oriented, ht, free, passes, rfl⟩
    rw [connectIf, (orient_eq_ok_iff ..).2 oriented]
    simp [bind, Except.bind, (requireSocket_eq_ok_iff ..).2 ht, free, passes]

theorem disconnect?_eq_some_iff (g g' : Graph) (a b : SocketId) :
    g.disconnect? a b = some g' ↔
      ∃ o i, g.Oriented a b o i ∧ ⟨o, i⟩ ∈ g.connections ∧ g' = g.unlink o i := by
  rw [disconnect?]
  constructor
  · intro h
    split at h
    · rename_i o i ho
      split at h
      · rename_i mem
        cases h
        exact ⟨o, i, (orient_eq_ok_iff ..).1 ho, List.contains_iff_mem.1 mem, rfl⟩
      · cases h
    · cases h
  · rintro ⟨o, i, oriented, mem, rfl⟩
    simp [(orient_eq_ok_iff ..).2 oriented, mem]

theorem Wired.disconnect?_of_mem {g : Graph} (h : g.Wired) {c : Connection}
    (hc : c ∈ g.connections) :
    g.disconnect? c.output c.input = some (g.unlink c.output c.input) :=
  (disconnect?_eq_some_iff ..).2 ⟨_, _, h.oriented hc, hc, rfl⟩

/-- A graph from which some connections have been taken, and nothing else. -/
structure Without (g : Graph) (gone : List Connection) (g' : Graph) : Prop where
  wired : g'.Wired
  connections : g'.connections = g.connections.filter (· ∉ gone)
  hasBlock : ∀ id, g'.hasBlock id = g.hasBlock id
  nextId : g'.nextId = g.nextId
  output : g'.output = g.output

theorem Wired.without_unlink {g : Graph} (h : g.Wired) {c : Connection}
    (hc : c ∈ g.connections) : g.Without [c] (g.unlink c.output c.input) where
  wired := h.unlink hc
  connections := by
    change g.connections.erase c = _
    rw [h.one_feeder.nodup.erase_eq_filter]
    apply List.filter_congr
    intro d _
    rw [Bool.eq_iff_iff]
    simp
  hasBlock := hasBlock_unlink g _ _
  nextId := rfl
  output := rfl

theorem Without.trans {g g' g'' : Graph} {gone gone' : List Connection} (h : g.Without gone g')
    (h' : g'.Without gone' g'') : g.Without (gone ++ gone') g'' where
  wired := h'.wired
  connections := by
    rw [h'.connections, h.connections, List.filter_filter]
    apply List.filter_congr
    intro d _
    simp [Bool.and_comm]
  hasBlock id := (h'.hasBlock id).trans (h.hasBlock id)
  nextId := h'.nextId.trans h.nextId
  output := h'.output.trans h.output

def disconnectNext (progress : Nat × Graph) (c : Connection) : Nat × Graph :=
  match progress.2.disconnect? c.output c.input with
  | some g => (progress.1 + 1, g)
  | none => progress

theorem disconnectEach_eq_foldl (g : Graph) (cs : List Connection) :
    g.disconnectEach cs = cs.foldl disconnectNext (0, g) :=
  rfl

theorem disconnectEach_keeps {P : Graph → Prop} {cs : List Connection}
    (keeps : ∀ c ∈ cs, ∀ g g', P g → g.disconnect? c.output c.input = some g' → P g')
    {g : Graph} (start : P g) : P (g.disconnectEach cs).2 := by
  have folded : ∀ progress : Nat × Graph,
      P progress.2 → P (cs.foldl disconnectNext progress).2 := by
    induction cs with
    | nil => exact fun progress h => h
    | cons c rest ih =>
      intro progress h
      refine ih (fun d hd => keeps d (List.mem_cons_of_mem _ hd)) _ ?_
      rw [disconnectNext]
      split
      · rename_i taken
        exact keeps c List.mem_cons_self _ _ h taken
      · exact h
  exact folded (0, g) start

theorem Wired.foldl_disconnectNext {cs : List Connection} (nodup : cs.Nodup) :
    ∀ {g : Graph}, g.Wired → (∀ c ∈ cs, c ∈ g.connections) → ∀ count,
      ∃ g', cs.foldl disconnectNext (count, g) = (count + cs.length, g') ∧ g.Without cs g' := by
  induction nodup with
  | nil =>
    intro g h _ count
    exact ⟨g, rfl, h, by simp, fun _ => rfl, rfl, rfl⟩
  | @cons c rest fresh nodup ih =>
    intro g h sub count
    have hc : c ∈ g.connections := sub c (List.mem_cons_self ..)
    have first := h.without_unlink hc
    have remaining : ∀ d ∈ rest, d ∈ (g.unlink c.output c.input).connections := by
      intro d hd
      rw [first.connections, List.mem_filter]
      refine ⟨sub d (List.mem_cons_of_mem _ hd), ?_⟩
      have : d ≠ c := fun same => fresh d hd same.symm
      simpa using this
    obtain ⟨g', folded, later⟩ := ih first.wired remaining (count + 1)
    refine ⟨g', ?_, first.trans later⟩
    rw [List.foldl_cons, disconnectNext, h.disconnect?_of_mem hc]
    simp only
    rw [folded, List.length_cons]
    congr 1
    omega

theorem Wired.disconnectEach {g : Graph} (h : g.Wired) {cs : List Connection} (nodup : cs.Nodup)
    (sub : ∀ c ∈ cs, c ∈ g.connections) :
    ∃ g', g.disconnectEach cs = (cs.length, g') ∧ g.Without cs g' := by
  rw [disconnectEach_eq_foldl]
  simpa using h.foldl_disconnectNext nodup sub 0

theorem Wired.disconnectEach_filter {g : Graph} (h : g.Wired) (touched : Connection → Bool) :
    ∃ g', g.disconnectEach (g.connections.filter touched)
        = ((g.connections.filter touched).length, g') ∧
      g.Without (g.connections.filter touched) g' ∧
      g'.connections = g.connections.filter fun c => !touched c := by
  obtain ⟨g', eq, without⟩ := h.disconnectEach (h.one_feeder.nodup.filter touched)
    fun c hc => List.mem_of_mem_filter hc
  refine ⟨g', eq, without, ?_⟩
  rw [without.connections]
  apply List.filter_congr
  intro c hc
  simp [hc]

theorem node?_remove (g : Graph) (id k : BlockId) :
    (g.remove id).2.node? k = if k = id then none
      else (g.disconnectEach (g.connections.filter fun c =>
        c.output.block = id ∨ c.input.block = id)).2.node? k :=
  lookup_filter_ne ..

theorem Wired.remove {g : Graph} (h : g.Wired) (id : BlockId) :
    (g.remove id).2.Wired ∧ (g.remove id).2.connections
      = g.connections.filter fun c => !decide (c.output.block = id ∨ c.input.block = id) := by
  obtain ⟨g', eq, without, connections⟩ :=
    h.disconnectEach_filter fun c => decide (c.output.block = id ∨ c.input.block = id)
  let after : Graph := (g.remove id).2
  have nodes : after.nodes = g'.nodes.filter (·.1 ≠ id) := by
    simp only [after, Graph.remove, eq]
  have cs : after.connections = g'.connections := by simp only [after, Graph.remove, eq]
  have nextId : after.nextId = g'.nextId := by simp only [after, Graph.remove, eq]
  have output : after.output = if g'.output = some id then none else g'.output := by
    simp only [after, Graph.remove, eq]
  have node? : ∀ k, after.node? k = if k = id then none else g'.node? k := by
    intro k
    rw [Graph.node?, nodes, lookup_filter_ne]
    rfl
  have socket? : ∀ p, after.socket? p = if p.block = id then none else g'.socket? p := by
    intro p
    rw [Graph.socket?, node?]
    split <;> rfl
  have away : ∀ c ∈ g'.connections, c.output.block ≠ id ∧ c.input.block ≠ id := by
    intro c hc
    rw [connections, List.mem_filter] at hc
    simpa using hc.2
  refine ⟨?_, cs.trans connections⟩
  change after.Wired
  constructor
  · rw [nodes]
    exact without.wired.sorted.filter _
  · intro k hk
    rw [hasBlock, node?] at hk
    rw [nextId]
    split at hk
    · simp at hk
    · exact without.wired.id_lt k hk
  · intro c hc
    rw [cs] at hc
    rw [socket?, socket?, if_neg (away c hc).1, if_neg (away c hc).2]
    exact without.wired.ends c hc
  · rw [cs]
    exact without.wired.one_feeder
  · intro p s hs
    rw [socket?] at hs
    split at hs
    · cases hs
    · rw [cs]
      exact without.wired.peer_eq p s hs
  · intro p s hs
    rw [socket?] at hs
    split at hs
    · cases hs
    · rw [cs]
      exact without.wired.endpoints_eq p s hs
  · intro k hk
    rw [output] at hk
    split at hk
    · cases hk
    · rename_i other
      have : k ≠ id := by
        rintro rfl
        exact other hk
      rw [hasBlock, node?, if_neg this]
      exact without.wired.output_exists k hk

theorem endsAt_modifySocket (g : Graph) (p q : SocketId)
    (f : MeshFlow.Socket → MeshFlow.Socket)
    (keeps : ∀ s, (f s).peer = s.peer ∧ (f s).endpoints = s.endpoints) :
    (g.modifySocket p f).endsAt q = g.endsAt q := by
  rw [endsAt, socket?_modifySocket, endsAt]
  split
  · cases g.socket? q with
    | none => rfl
    | some s => simp [keeps]
  · rfl

theorem endsAt_modifyNode (g : Graph) (id : BlockId) (p : SocketId) (f : Node → Node)
    (keeps : ∀ n, (f n).inputs = n.inputs ∧ (f n).outputs = n.outputs) :
    (g.modifyNode id f).endsAt p = g.endsAt p := by
  rw [endsAt, Graph.socket?, node?_modifyNode, endsAt, Graph.socket?]
  split
  · cases g.node? p.block with
    | none => rfl
    | some n =>
      have : (f n).socket? p.side p.index = n.socket? p.side p.index := by
        cases hs : p.side <;> simp [Node.socket?, Node.sockets, keeps]
      simp [this]
  · rfl

theorem setDefault_eq_ok_iff (g g' : Graph) (p : SocketId) (v : Value) :
    g.setDefault p v = .ok g' ↔ (g.socket? p).isSome ∧
      g' = g.modifySocket p fun s => { s with default? := some v } := by
  rw [setDefault]
  cases h : g.requireSocket p with
  | error e =>
    have : g.socket? p = none := by
      rw [Option.eq_none_iff_forall_ne_some]
      intro s hs
      rw [(requireSocket_eq_ok_iff ..).2 hs] at h
      cases h
    simp [this, bind, Except.bind]
  | ok s =>
    rw [requireSocket_eq_ok_iff] at h
    simp [h, bind, Except.bind, pure, Except.pure, eq_comm]

theorem setOutput_eq_ok_iff (g g' : Graph) (id : BlockId) :
    g.setOutput id = .ok g' ↔ g.hasBlock id ∧ g' = { g with output := some id } := by
  rw [setOutput]
  split
  · rename_i has
    rw [Except.ok.injEq, eq_comm]
    simp [has]
  · rename_i lacks
    simp [lacks]

theorem orKeep_cases (g : Graph) (attempt : Except GraphError Graph) :
    g.orKeep attempt = g ∨ attempt = .ok (g.orKeep attempt) := by
  cases attempt with
  | error e => exact .inl rfl
  | ok g' => exact .inr rfl

theorem socket?_ofBlock (name : String) (block : Block) (side : Side) (index : Nat)
    (s : MeshFlow.Socket) (h : (Node.ofBlock name block).socket? side index = some s) :
    s.peer = none ∧ s.endpoints = [] ∧ s.default? = s.spec.default? := by
  cases side <;>
  · simp only [Node.socket?, Node.sockets, Node.ofBlock, List.getElem?_map,
      Option.map_eq_some_iff] at h
    obtain ⟨spec, -, rfl⟩ := h
    exact ⟨rfl, rfl, rfl⟩

/-- What an edit can do to the connections: keep some of them, or add one that closes no cycle. -/
inductive ConnectionsAfter (g : Graph) : List Connection → Prop where
  | kept (keep : Connection → Bool) : ConnectionsAfter g (g.connections.filter keep)
  | made (o i : SocketId) : (g.socket? o).isSome → (g.socket? i).isSome →
    g.hierarchy o i = .compatible → ConnectionsAfter g (g.connections ++ [⟨o, i⟩])

theorem ConnectionsAfter.same {g : Graph} {cs : List Connection} (h : cs = g.connections) :
    g.ConnectionsAfter cs := by
  have : cs = g.connections.filter fun _ => true := by rw [h, List.filter_eq_self.2]; simp
  rw [this]
  exact .kept _

theorem succ_toNat {i : BlockId} (h : i < BlockId.last) : (i + 1).toNat = i.toNat + 1 := by
  have : i.toNat < 4294967295 := UInt32.lt_iff_toNat_lt.1 h
  rw [UInt32.toNat_add]
  change (i.toNat + 1) % 4294967296 = _
  omega

theorem hierarchy_of_compatibility {g : Graph} {o i : SocketId}
    (h : g.compatibility o i = .compatible) : g.hierarchy o i = .compatible := by
  rw [compatibility] at h
  split at h
  · cases h
  · split at h
    · exact h
    · cases h

theorem Wired.connectIf {g g' : Graph} (h : g.Wired)
    {check : SocketId → SocketId → Compatibility}
    (strict : ∀ o i, check o i = .compatible → g.hierarchy o i = .compatible) {a b : SocketId}
    (done : g.connectIf check a b = .ok g') : g'.Wired ∧ g.ConnectionsAfter g'.connections := by
  obtain ⟨o, i, target, oriented, ht, free, passes, rfl⟩ := (connectIf_eq_ok_iff ..).1 done
  exact ⟨h.link oriented.output oriented.input oriented.output_exists ht free,
    .made o i oriented.output_exists oriented.input_exists (strict o i passes)⟩

theorem Wired.apply {g : Graph} (h : g.Wired) (e : Edit) (fits : e.Fits g) :
    (e.apply g).Wired ∧ g.ConnectionsAfter (e.apply g).connections := by
  have bare : ∀ (name : String) (block : Block) side index s,
      (Node.ofBlock name block).socket? side index = some s →
      s.peer = none ∧ s.endpoints = [] := by
    intro name block side index s hs
    obtain ⟨peer, endpoints, -⟩ := socket?_ofBlock name block side index s hs
    exact ⟨peer, endpoints⟩
  cases e with
  | add name block =>
    have fresh : g.hasBlock g.nextId = false := by
      rw [← Bool.not_eq_true]
      intro has
      exact absurd (h.id_lt _ has) (UInt32.lt_irrefl _)
    have step : (g.nextId + 1).toNat = g.nextId.toNat + 1 := succ_toNat fits
    rcases orKeep_cases g ((g.add name block).map Prod.snd) with same | done
    · rw [Edit.apply, same]
      exact ⟨h, .same rfl⟩
    · obtain ⟨-, -, eq⟩ := (add_eq_ok_iff ..).1 ((map_add_eq_ok_iff ..).1 done)
      rw [Edit.apply, eq]
      refine ⟨h.insertNode fresh ?_ ?_ (bare name block), .same rfl⟩
      · rw [UInt32.le_iff_toNat_le]
        omega
      · rw [UInt32.lt_iff_toNat_lt]
        omega
  | insert id name block =>
    rcases orKeep_cases g (g.insert id name block) with same | done
    · rw [Edit.apply, same]
      exact ⟨h, .same rfl⟩
    · obtain ⟨fresh, -, eq⟩ := (insert_eq_ok_iff ..).1 done
      have step : (id + 1).toNat = id.toNat + 1 := succ_toNat fits
      rw [Edit.apply, eq]
      refine ⟨h.insertNode fresh ?_ ?_ (bare name block), .same rfl⟩
      · split
        · assumption
        · exact UInt32.le_refl _
      · split
        · rw [UInt32.lt_iff_toNat_lt]
          omega
        · rename_i above
          rw [UInt32.le_iff_toNat_le] at above
          rw [UInt32.lt_iff_toNat_lt]
          omega
  | remove id =>
    obtain ⟨wired, connections⟩ := h.remove id
    refine ⟨wired, ?_⟩
    rw [Edit.apply, connections]
    exact .kept _
  | connect a b =>
    rcases orKeep_cases g (g.connect a b) with same | done
    · rw [Edit.apply, same]
      exact ⟨h, .same rfl⟩
    · exact h.connectIf (fun o i => hierarchy_of_compatibility) done
  | connectUnchecked a b =>
    rcases orKeep_cases g (g.connectUnchecked a b) with same | done
    · rw [Edit.apply, same]
      exact ⟨h, .same rfl⟩
    · exact h.connectIf (fun o i passes => passes) done
  | disconnect a b =>
    rw [Edit.apply]
    cases attempt : g.disconnect? a b with
    | none => exact ⟨h, .same rfl⟩
    | some g' =>
      obtain ⟨o, i, -, mem, rfl⟩ := (disconnect?_eq_some_iff ..).1 attempt
      have without := h.without_unlink mem
      refine ⟨without.wired, ?_⟩
      rw [Option.getD_some, without.connections]
      exact .kept _
  | disconnectAll p =>
    obtain ⟨g', eq, without, connections⟩ :=
      h.disconnectEach_filter fun c => decide (c.output = p ∨ c.input = p)
    rw [Edit.apply, Graph.disconnectAll, eq]
    refine ⟨without.wired, ?_⟩
    rw [connections]
    exact .kept _
  | setDefault p v =>
    rcases orKeep_cases g (g.setDefault p v) with same | done
    · rw [Edit.apply, same]
      exact ⟨h, .same rfl⟩
    · obtain ⟨-, eq⟩ := (setDefault_eq_ok_iff ..).1 done
      rw [Edit.apply, eq]
      exact ⟨h.of_same_ends (modifySocket_sorted h.sorted ..) (hasBlock_modifySocket g p · _)
        (endsAt_modifySocket g p · _ fun s => ⟨rfl, rfl⟩) rfl rfl h.output_exists, .same rfl⟩
  | setOutput id =>
    rcases orKeep_cases g (g.setOutput id) with same | done
    · rw [Edit.apply, same]
      exact ⟨h, .same rfl⟩
    · obtain ⟨has, eq⟩ := (setOutput_eq_ok_iff ..).1 done
      rw [Edit.apply, eq]
      refine ⟨h.of_same_ends h.sorted (fun _ => rfl) (fun _ => rfl) rfl rfl ?_, .same rfl⟩
      rintro k hk
      cases hk
      exact has
  | setBlock id block =>
    exact ⟨h.of_same_ends (modifyNode_sorted h.sorted ..) (hasBlock_modifyNode g id · _)
      (endsAt_modifyNode g id · _ fun n => ⟨rfl, rfl⟩) rfl rfl h.output_exists, .same rfl⟩

theorem Reachable.wired {g : Graph} (h : g.Reachable) : g.Wired :=
  ReachableBy.invariant .empty (fun _ e _ fits wired => (wired.apply e fits).1) h

end MeshFlow.Graph
