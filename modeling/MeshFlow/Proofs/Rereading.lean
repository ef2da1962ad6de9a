import Mathlib.Data.List.Forall2
import MeshFlow.Proofs.Replay
import MeshFlow.Proofs.Settings

set_option autoImplicit false

/-!
# Loading what was saved

A saved graph is put together again block by block, literal by literal and connection by connection.
What comes of it is said by reading every block and every literal again where it stands: the graph
loads just when each of them does, into that graph, and it is refused for the first one that is not.
Connections and the output never stand in the way.
-/
namespace MeshFlow

/-- Both fail for the same reason, or both give a result and the results are related. -/
inductive EndAlike {ε α β : Type} (R : α → β → Prop) : Except ε α → Except ε β → Prop where
  | error (e : ε) : EndAlike R (.error e) (.error e)
  | ok {a : α} {b : β} : R a b → EndAlike R (.ok a) (.ok b)

namespace EndAlike
variable {ε α β γ σ : Type} {R : α → β → Prop} {x : Except ε α} {y : Except ε β}

theorem mono {R' : α → β → Prop} (h : EndAlike R x y) (le : ∀ a b, R a b → R' a b) :
    EndAlike R' x y := by
  cases h with
  | error e => exact .error e
  | ok related => exact .ok (le _ _ related)

theorem bind {R' : γ → σ → Prop} (h : EndAlike R x y) {f : α → Except ε γ} {g : β → Except ε σ}
    (next : ∀ a b, R a b → EndAlike R' (f a) (g b)) : EndAlike R' (x >>= f) (y >>= g) := by
  cases h with
  | error e => exact .error e
  | ok related => exact next _ _ related

theorem map_left {R : γ → β → Prop} {f : α → γ} (h : EndAlike (fun a b => R (f a) b) x y) :
    EndAlike R (x >>= fun a => pure (f a)) y := by
  cases h with
  | error e => exact .error e
  | ok related => exact .ok related

theorem of_ok (h : EndAlike R x y) {a : α} (done : x = .ok a) : ∃ b, y = .ok b ∧ R a b := by
  subst done
  cases h with
  | ok related => exact ⟨_, rfl, related⟩

theorem of_ok_right (h : EndAlike R x y) {b : β} (done : y = .ok b) : ∃ a, x = .ok a ∧ R a b := by
  subst done
  cases h with
  | ok related => exact ⟨_, rfl, related⟩

theorem exists_ok_iff (h : EndAlike R x y) : (∃ a, x = .ok a) ↔ ∃ b, y = .ok b := by
  cases h with
  | error e => exact iff_of_false (fun ⟨_, done⟩ => nomatch done) fun ⟨_, done⟩ => nomatch done
  | ok related => exact iff_of_true ⟨_, rfl⟩ ⟨_, rfl⟩

theorem of_error (h : EndAlike R x y) {e : ε} (failed : x = .error e) : y = .error e := by
  subst failed
  cases h
  rfl

/-- A fold over written items and reading them one by one: `Inv` says where the fold stands, by what
has been read and what is left. -/
theorem foldlM {read : α → Except ε β} {write : α → γ} {step : σ → γ → Except ε σ}
    (Inv : List β → List α → σ → Prop) {xs : List α}
    (progress : ∀ x ∈ xs, ∀ {done rest s}, Inv done (x :: rest) s →
      EndAlike (fun y s' => Inv (done ++ [y]) rest s') (read x) (step s (write x)))
    {done : List β} {start : σ} (h : Inv done xs start) :
    EndAlike (fun ys s => Inv (done ++ ys) [] s) (xs.mapM read)
      ((xs.map write).foldlM step start) := by
  induction xs generalizing done start with
  | nil => exact .ok (by rwa [List.reverse_nil, List.append_nil])
  | cons x rest ih =>
    rw [List.mapM_cons, List.map_cons, List.foldlM_cons]
    refine (progress x (List.mem_cons_self ..) h).bind fun y s h => map_left ?_
    refine (ih (fun x mem => progress x (List.mem_cons_of_mem _ mem)) h).mono fun ys s h => ?_
    rwa [List.append_assoc] at h

end EndAlike

theorem mapM_eq_ok_iff {ε α β : Type} (f : α → Except ε β) (xs : List α) (ys : List β) :
    xs.mapM f = .ok ys ↔ List.Forall₂ (fun x y => f x = .ok y) xs ys := by
  induction xs generalizing ys with
  | nil => cases ys <;> simp [pure, Except.pure]
  | cons x rest ih =>
    rw [List.mapM_cons, bind_eq_ok_iff, List.forall₂_cons_left_iff]
    constructor
    · rintro ⟨y, first, done⟩
      obtain ⟨ys', others, ⟨⟩⟩ := (bind_eq_ok_iff ..).1 done
      exact ⟨y, ys', first, (ih ys').1 others, rfl⟩
    · rintro ⟨y, ys', first, others, rfl⟩
      exact ⟨y, first, (bind_eq_ok_iff ..).2 ⟨ys', (ih ys').2 others, rfl⟩⟩

theorem exists_first_failure {ε α β : Type} {f : α → Except ε β} {P : α → Prop} {xs : List α}
    (done : ∀ x ∈ xs, P x → ∃ y, f x = .ok y) (some_not : ¬ ∀ x ∈ xs, P x) :
    ∃ x ∈ xs, ¬ P x ∧ ∀ e, f x = .error e → xs.mapM f = .error e := by
  induction xs with
  | nil => exact absurd (by simp) some_not
  | cons x rest ih =>
    by_cases holds : P x
    · obtain ⟨y, first⟩ := done x (List.mem_cons_self ..) holds
      obtain ⟨z, mem, not, failure⟩ := ih (fun z mem => done z (List.mem_cons_of_mem _ mem))
        fun all => some_not (by simpa [holds] using all)
      refine ⟨z, List.mem_cons_of_mem _ mem, not, fun e failed => ?_⟩
      rw [List.mapM_cons, first, failure e failed]
      rfl
    · refine ⟨x, List.mem_cons_self .., holds, fun e failed => ?_⟩
      rw [List.mapM_cons, failed]
      rfl

/-- The input with its literal written and read; what was not written is as declared. -/
def Socket.reread (id : BlockId) (s : Socket) : Except LoadError Socket :=
  match s.save.value with
  | none => .ok { s with default? := s.spec.default? }
  | some j =>
    match Value.literal? s.spec.kind j with
    | some v => .ok { s with default? := some v }
    | none =>
      .error (.invalidProperty id s.spec.name s!"{j.compact} is not a {s.spec.kind.name} literal")

/-- The block made again from its settings, and the literals of its inputs read again. -/
def Node.reread (id : BlockId) (n : Node) : Except LoadError Node := do
  let block ←
    (Registry.standard.create n.block.className n.block.properties).mapError LoadError.create
  let inputs ← n.inputs.mapM (Socket.reread id)
  return { n with block, inputs }

def Graph.rereadEntry (entry : BlockId × Node) : Except LoadError (BlockId × Node) :=
  return (entry.1, ← entry.2.reread entry.1)

def Graph.reread (g : Graph) : Except LoadError Graph := do
  return { g with nodes := ← g.nodes.mapM rereadEntry }

/-- The same block but for its settings and its literals. -/
structure Node.Resets (n n' : Node) : Prop where
  name : n'.name = n.name
  className : n'.block.className = n.block.className
  standard : n'.block.IsStandard
  inputs : n'.inputs.map (fun s => (s.spec, s.peer, s.endpoints))
    = n.inputs.map fun s => (s.spec, s.peer, s.endpoints)
  outputs : n'.outputs = n.outputs

theorem Socket.of_reread {id : BlockId} {s s' : Socket} (h : s.reread id = .ok s') :
    ∃ literal, s' = { s with default? := literal } := by
  rw [reread] at h
  split at h
  · cases h
    exact ⟨_, rfl⟩
  · split at h
    · cases h
      exact ⟨_, rfl⟩
    · cases h

theorem Block.of_ofSettings? {b b' : Block} (standard : b.IsStandard)
    (notInput : ∀ settings, b ≠ input settings) {j : Json} (h : b.usual.ofSettings? j = some b') :
    b'.IsStandard ∧ b'.className = b.className := by
  cases b with
  | custom _ => exact standard.elim
  | input settings => exact absurd rfl (notInput settings)
  | mesh | instantiateOnVertices | instantiateOnVolume =>
    obtain ⟨fields, -, h⟩ := Option.bind_eq_some_iff.1 h
    split at h
    · obtain ⟨_, -, h⟩ := Option.bind_eq_some_iff.1 h
      obtain ⟨_, -, ⟨⟩⟩ := Option.bind_eq_some_iff.1 h
      exact ⟨trivial, rfl⟩
    · cases h
  | output | vectorConverter | shift | scaling | matrixCompose | info =>
    cases h
    exact ⟨trivial, rfl⟩
  | setAttribute target =>
    obtain ⟨_, -, rfl⟩ := Option.map_eq_some_iff.1 h
    cases target <;> exact ⟨trivial, rfl⟩
  | _ =>
    obtain ⟨_, -, rfl⟩ := Option.map_eq_some_iff.1 h
    exact ⟨trivial, rfl⟩

theorem Block.of_withProperties {b b' : Block} (standard : b.IsStandard) {j : Json}
    (h : b.usual.withProperties j = .ok b') : b'.IsStandard ∧ b'.className = b.className := by
  obtain ⟨settings, rfl⟩ | notInput := exists_or_forall_not (b = .input ·)
  · obtain ⟨kind, v, source, -, -, -, rfl⟩ := (inputSettings_eq_ok_iff ..).1 h
    exact ⟨trivial, rfl⟩
  · rw [withProperties_usual notInput] at h
    split at h
    · rename_i made
      cases h
      exact of_ofSettings? standard notInput made
    · cases h

theorem Node.properties_save {n : Node} (standard : n.block.IsStandard) (id : BlockId) :
    Json.object (n.save id).properties = n.block.properties := by
  obtain ⟨members, object⟩ := Block.properties_eq_object standard
  rw [Node.save]
  simp only [object]

theorem Node.reread_eq_ok_iff {id : BlockId} {n : Node} (standard : n.block.IsStandard)
    (n' : Node) :
    n.reread id = .ok n' ↔ ∃ block inputs,
      n.block.usual.withProperties n.block.properties = .ok block ∧
      List.Forall₂ (fun s s' => s.reread id = .ok s') n.inputs inputs ∧
      n' = { n with block, inputs } := by
  simp only [reread, bind_eq_ok_iff, mapError_eq_ok_iff, Registry.create_standard standard,
    mapM_eq_ok_iff, pure, Except.pure, Except.ok.injEq, eq_comm (b := n'), exists_and_left]

theorem Node.resets_of_reread {id : BlockId} {n n' : Node} (standard : n.block.IsStandard)
    (h : n.reread id = .ok n') : n.Resets n' := by
  obtain ⟨block, inputs, made, read, rfl⟩ := (reread_eq_ok_iff standard _).1 h
  obtain ⟨madeStandard, className⟩ := Block.of_withProperties standard made
  refine ⟨rfl, className, madeStandard, map_eq_of_forall₂ read fun s s' read => ?_, rfl⟩
  obtain ⟨literal, rfl⟩ := Socket.of_reread read
  rfl

namespace Graph

section
variable {g : Graph} {before : List (BlockId × Node)} {id : BlockId} {n : Node}

theorem node?_last (above : ∀ entry ∈ before, entry.1 < id)
    (nodes : g.nodes = before ++ [(id, n)]) :
    g.node? id = some n := by
  have fresh : before.lookup id = none :=
    lookup_eq_none fun entry mem => UInt32.ne_of_lt (above entry mem)
  rw [node?, nodes, List.lookup_append, fresh, Option.none_or, lookup_cons_ite, if_pos rfl]

theorem nodes_modifySocket_last (above : ∀ entry ∈ before, entry.1 < id)
    (nodes : g.nodes = before ++ [(id, n)]) (side : Side) (index : Nat)
    (f : MeshFlow.Socket → MeshFlow.Socket) :
    (g.modifySocket ⟨id, side, index⟩ f).nodes = before ++ [(id, n.modifySocket side index f)] := by
  change g.nodes.map _ = _
  rw [nodes, List.map_append]
  congr 1
  · refine (List.map_congr_left fun entry mem => ?_).trans (List.map_id _)
    exact if_neg (UInt32.ne_of_lt (above entry mem))
  · simp

theorem insertNode_last (above : ∀ entry ∈ before, entry.1 < id) :
    insertNode id n before = before ++ [(id, n)] := by
  induction before with
  | nil => rfl
  | cons entry rest ih =>
    have first := above entry (List.mem_cons_self ..)
    rw [insertNode, if_neg (UInt32.lt_asymm first), if_neg (UInt32.ne_of_lt first).symm,
      ih fun entry mem => above entry (List.mem_cons_of_mem _ mem), List.cons_append]

/-- The block in the making: some of its inputs have got their literals. -/
def partly (n : Node) (done rest : List MeshFlow.Socket) : Node :=
  { n.unwired with
    inputs := (done.map fun s => { spec := s.spec, default? := s.default? })
      ++ rest.map fun s => { spec := s.spec } }

theorem loadInput_alike {s : MeshFlow.Socket} {done rest : List MeshFlow.Socket}
    (above : ∀ entry ∈ before, entry.1 < id)
    (names : ((done ++ s :: rest).map (·.spec.name)).Nodup)
    (nodes : g.nodes = before ++ [(id, partly n done (s :: rest))]) :
    EndAlike (fun s' g' => s'.spec = s.spec ∧
        g'.nodes = before ++ [(id, partly n (done ++ [s']) rest)])
      (s.reread id) (g.loadInput id s.save) := by
  have here := node?_last above nodes
  have found : (partly n done (s :: rest)).socket? .input done.length
      = some { spec := s.spec } := by
    simp [Node.socket?, Node.sockets, partly]
  have distinct : (((partly n done (s :: rest)).sockets .input).map (·.spec.name)).Nodup := by
    simpa [Node.sockets, partly, Function.comp_def] using names
  have named : g.namedSocket id .input s.save.name = .ok (.input id done.length) :=
    namedSocket_of_nodup (s := { spec := s.spec }) here distinct found
  have socket : g.socket? (.input id done.length) = some { spec := s.spec } :=
    (socket?_of_node? here).trans found
  rw [MeshFlow.Socket.reread, Graph.loadInput, named]
  cases s.save.value with
  | none => exact .ok ⟨rfl, by simpa [partly] using nodes⟩
  | some j =>
    simp only [socket, Option.map_some, Option.getD_some]
    cases Value.literal? s.spec.kind j with
    | none => exact .error _
    | some v =>
      have set := (setDefault_eq_ok_iff g _ (.input id done.length) v).2 ⟨by simp [socket], rfl⟩
      simp only [set]
      refine .ok ⟨rfl, ?_⟩
      rw [SocketId.input, nodes_modifySocket_last above nodes]
      simp [partly, Node.modifySocket, List.modify_eq_take_drop]

theorem loadInputs_alike (above : ∀ entry ∈ before, entry.1 < id)
    (names : (n.inputs.map (·.spec.name)).Nodup)
    (nodes : g.nodes = before ++ [(id, partly n [] n.inputs)]) :
    EndAlike (fun inputs g' => g'.nodes = before ++ [(id, { n with inputs }.unwired)])
      (n.inputs.mapM (MeshFlow.Socket.reread id))
      ((n.inputs.map MeshFlow.Socket.save).foldlM (fun g i => g.loadInput id i) g) := by
  let Inv (done rest : List MeshFlow.Socket) (g : Graph) : Prop :=
    ((done ++ rest).map (·.spec.name)).Nodup ∧ g.nodes = before ++ [(id, partly n done rest)]
  have start : Inv [] n.inputs g := ⟨names, nodes⟩
  refine (EndAlike.foldlM Inv ?_ start).mono fun inputs g' ⟨_, nodes⟩ => ?_
  · rintro s - done rest g ⟨names, nodes⟩
    refine (loadInput_alike above names nodes).mono fun s' g' ⟨spec, nodes⟩ => ⟨?_, nodes⟩
    simpa [spec] using names
  · simpa [partly, Node.unwired] using nodes

theorem create_alike {b : Block} (standard : b.IsStandard) (j : Json) :
    EndAlike (fun made made' => made' = made ∧ made.IsStandard ∧ made.className = b.className)
      ((Registry.standard.create b.className j).mapError LoadError.create)
      ((Registry.standard.create b.className j).mapError LoadError.create) := by
  rw [Registry.create_standard standard]
  cases made : b.usual.withProperties j with
  | error e => exact .error _
  | ok b' => exact .ok ⟨rfl, Block.of_withProperties standard made⟩

theorem loadBlock_alike (above : ∀ entry ∈ g.nodes, entry.1 < id) (counted : id ≠ .last)
    (standard : n.block.IsStandard)
    (inputSpecs : n.inputs.map (·.spec) = n.block.inputSpecs)
    (outputSpecs : n.outputs.map (·.spec) = n.block.outputSpecs) :
    EndAlike (fun n' g' => g'.nodes = g.nodes ++ [(id, n'.unwired)]) (n.reread id)
      (g.loadBlock .standard (n.save id)) := by
  rw [Node.reread, Graph.loadBlock, Node.properties_save standard]
  refine (create_alike standard _).bind ?_
  rintro _ block ⟨rfl, madeStandard, className⟩
  have sockets := Block.sockets_eq_of_className madeStandard standard className
  have free : g.hasBlock id = false := by
    have fresh : g.nodes.lookup id = none :=
      lookup_eq_none fun entry mem => UInt32.ne_of_lt (above entry mem)
    rw [hasBlock, node?, fresh]
    rfl
  have start : partly { n with block } [] n.inputs = .ofBlock n.name block := by
    simp only [partly, Node.ofBlock, Node.unwired, Block.inputSpecs, Block.outputSpecs, sockets]
    rw [← Block.inputSpecs, ← Block.outputSpecs, ← inputSpecs, ← outputSpecs]
    simp [Function.comp_def]
  have names : (n.inputs.map (·.spec.name)).Nodup := by
    have distinct := (Block.nodup_names standard).1
    rwa [← inputSpecs, List.map_map] at distinct
  have inserted := (insert_eq_ok_iff g _ id n.name block).2 ⟨free, counted, rfl⟩
  change EndAlike _ _ (Except.bind (Except.mapError _ (g.insert id n.name block)) _)
  rw [inserted]
  refine .map_left (loadInputs_alike (n := { n with block }) above names ?_)
  exact (insertNode_last above).trans (by rw [start])

end

/-- What holds of a graph over the standard blocks however it has come about, by edits or by
loading. -/
structure Coherent (g : Graph) : Prop where
  sorted : g.nodes.Pairwise fun a b => a.1 < b.1
  counted : ∀ id, g.hasBlock id → id ≠ .last
  linked : g.Linked
  acyclic : g.Acyclic
  declares : g.Declares Block.IsStandard
  output_exists : ∀ id, g.output = some id → g.hasBlock id

theorem ReachableWith.coherent {g : Graph} (h : g.ReachableWith Block.Made) : g.Coherent where
  sorted := (Reachable.wired h.reachable).sorted
  counted id has := UInt32.ne_of_lt
    (UInt32.lt_of_lt_of_le ((Reachable.wired h.reachable).id_lt id has) (le_last _))
  linked := (Reachable.wired h.reachable).linked
  acyclic := Reachable.acyclic h.reachable
  declares := by
    have declares := h.declares fun b made => made.isStandard
    exact ⟨fun id n hn => (declares.sort id n hn).isStandard, declares.specs⟩
  output_exists := (Reachable.wired h.reachable).output_exists

/-- The same graph but for the settings of its blocks and their literals. -/
structure Resets (g g' : Graph) : Prop where
  nodes : List.Forall₂ (fun a b => b.1 = a.1 ∧ a.2.Resets b.2) g.nodes g'.nodes
  connections : g'.connections = g.connections
  output : g'.output = g.output

section
variable {g g' : Graph}

theorem reread_eq_ok_iff (g g' : Graph) : g.reread = .ok g' ↔ ∃ nodes,
    List.Forall₂ (fun a b => b.1 = a.1 ∧ a.2.reread a.1 = .ok b.2) g.nodes nodes ∧
      g' = { g with nodes } := by
  have entries : ∀ a b, rereadEntry a = .ok b ↔ b.1 = a.1 ∧ a.2.reread a.1 = .ok b.2 := by
    rintro ⟨id, n⟩ ⟨id', n'⟩
    simp only [rereadEntry, bind_eq_ok_iff, pure, Except.pure, Except.ok.injEq, Prod.mk.injEq]
    constructor
    · rintro ⟨_, read, rfl, rfl⟩
      exact ⟨rfl, read⟩
    · rintro ⟨rfl, read⟩
      exact ⟨n', read, rfl, rfl⟩
  simp only [reread, bind_eq_ok_iff, mapM_eq_ok_iff, entries, pure, Except.pure, Except.ok.injEq,
    eq_comm (b := g')]

theorem Coherent.node?_of_mem (h : g.Coherent) {entry : BlockId × Node} (mem : entry ∈ g.nodes) :
    g.node? entry.1 = some entry.2 :=
  lookup_of_mem_sorted h.sorted mem

theorem Coherent.forall_node?_iff (h : g.Coherent) {P : Node → Prop} :
    (∀ id n, g.node? id = some n → P n) ↔ ∀ entry ∈ g.nodes, P entry.2 := by
  constructor
  · exact fun all entry mem => all _ _ (h.node?_of_mem mem)
  · exact fun all id n hn => all (id, n) (mem_of_lookup hn)

theorem Coherent.resets_of_reread (h : g.Coherent) (done : g.reread = .ok g') : g.Resets g' := by
  obtain ⟨nodes, read, rfl⟩ := (reread_eq_ok_iff ..).1 done
  have standard : ∀ entry ∈ g.nodes, entry.2.block.IsStandard := fun entry mem =>
    h.declares.sort entry.1 entry.2 (h.node?_of_mem mem)
  refine ⟨?_, rfl, rfl⟩
  exact ((List.forall₂_and_left ..).2 ⟨standard, read⟩).imp fun a b ⟨standard, same, read⟩ =>
    ⟨same, Node.resets_of_reread standard read⟩

namespace Resets

theorem node? (h : g.Resets g') (id : BlockId) :
    Option.Rel Node.Resets (g.node? id) (g'.node? id) :=
  rel_lookup h.nodes id

theorem socket? (h : g.Resets g') (p : SocketId) :
    (g'.socket? p).map (fun s => (s.spec, s.peer, s.endpoints))
      = (g.socket? p).map fun s => (s.spec, s.peer, s.endpoints) := by
  have node := h.node? p.block
  rw [Graph.socket?, Graph.socket?]
  revert node
  generalize g.node? p.block = n
  generalize g'.node? p.block = n'
  intro node
  cases node with
  | none => rfl
  | some resets =>
    rw [Option.bind_some, Option.bind_some, Node.socket?, Node.socket?, ← List.getElem?_map,
      ← List.getElem?_map]
    cases p.side with
    | input => rw [Node.sockets, Node.sockets, resets.inputs]
    | output => rw [Node.sockets, Node.sockets, resets.outputs]

theorem spec? (h : g.Resets g') (p : SocketId) :
    (g'.socket? p).map (·.spec) = (g.socket? p).map (·.spec) := by
  have same := congrArg (Option.map Prod.fst) (h.socket? p)
  rwa [Option.map_map, Option.map_map] at same

theorem connections_save (h : g.Resets g') : g'.save.connections = g.save.connections := by
  change g'.connections.filterMap _ = g.connections.filterMap _
  rw [h.connections, funext (saveConnection?_congr h.spec?)]

theorem endsAt (h : g.Resets g') (p : SocketId) : g'.endsAt p = g.endsAt p := by
  have same := congrArg (Option.map Prod.snd) (h.socket? p)
  rwa [Option.map_map, Option.map_map] at same

theorem linked (h : g.Resets g') (linked : g.Linked) : g'.Linked :=
  linked.of_same_ends h.endsAt h.connections

theorem hasBlock (h : g.Resets g') (id : BlockId) : g'.hasBlock id = g.hasBlock id :=
  hasBlock_of_rel (h.node? id)

theorem coherent (h : g.Resets g') (c : g.Coherent) : g'.Coherent where
  sorted := by
    have ids : g'.nodes.map (·.1) = g.nodes.map (·.1) :=
      map_eq_of_forall₂ h.nodes fun _ _ entry => entry.1
    rw [← List.pairwise_map (f := Prod.fst), ids, List.pairwise_map]
    exact c.sorted
  counted id has := c.counted id (h.hasBlock id ▸ has)
  linked := h.linked c.linked
  acyclic := by
    refine c.acyclic.of_le fun a b feeds => ?_
    rw [(h.linked c.linked).feeds_iff, h.connections] at feeds
    exact (c.linked.feeds_iff ..).2 feeds
  declares := by
    constructor
    · intro id n' hn'
      have node := h.node? id
      rw [hn'] at node
      generalize g.node? id = n at node
      cases node with
      | some resets => exact resets.standard
    · intro id n' hn'
      have node := h.node? id
      rw [hn'] at node
      generalize hn : g.node? id = n at node
      cases node with
      | @some n _ resets =>
        obtain ⟨inputs, outputs⟩ := c.declares.specs id n hn
        have sockets := Block.sockets_eq_of_className resets.standard (c.declares.sort id n hn)
          resets.className
        have specs := congrArg (List.map Prod.fst) resets.inputs
        rw [List.map_map, List.map_map] at specs
        rw [Block.inputSpecs, Block.outputSpecs, sockets, resets.outputs]
        exact ⟨specs.trans inputs, outputs⟩
  output_exists id hid := by
    rw [h.hasBlock]
    exact c.output_exists id (h.output ▸ hid)

end Resets

theorem Coherent.loadBlocks_alike (h : g.Coherent) :
    EndAlike (fun g' loaded => loaded.nodes = g'.bareNodes) g.reread
      (g.save.blocks.foldlM (Graph.loadBlock .standard) empty) := by
  let Inv (done rest : List (BlockId × Node)) (loaded : Graph) : Prop :=
    (done.map (·.1) ++ rest.map (·.1)).Pairwise (· < ·) ∧
      loaded.nodes = done.map fun entry => (entry.1, entry.2.unwired)
  have start : Inv [] g.nodes empty := ⟨List.pairwise_map.2 h.sorted, rfl⟩
  refine .map_left ((EndAlike.foldlM Inv ?_ start).mono fun _ _ done => done.2)
  rintro ⟨id, n⟩ mem done rest loaded ⟨ids, nodes⟩
  have hn := h.node?_of_mem mem
  obtain ⟨inputSpecs, outputSpecs⟩ := h.declares.specs id n hn
  -- The numbers rise, so that each block comes after all that are loaded.
  have above : ∀ entry ∈ loaded.nodes, entry.1 < id := by
    rw [nodes]
    intro entry mem
    obtain ⟨old, early, rfl⟩ := List.mem_map.1 mem
    exact (List.pairwise_append.1 ids).2.2 _ (List.mem_map_of_mem early) _ (List.mem_cons_self ..)
  have counted := h.counted id (by rw [hasBlock, hn]; rfl)
  have alike := loadBlock_alike above counted (h.declares.sort id n hn) inputSpecs outputSpecs
  refine .map_left (alike.mono fun n' loaded' nodes' => ⟨by simpa using ids, ?_⟩)
  rw [nodes', nodes, List.map_append]
  rfl

theorem forall₂_filterMap {α β : Type} {R : β → α → Prop} {f : α → Option β} {xs : List α}
    (h : ∀ x ∈ xs, ∃ y, f x = some y ∧ R y x) : List.Forall₂ R (xs.filterMap f) xs := by
  induction xs with
  | nil => exact .nil
  | cons x rest ih =>
    obtain ⟨y, written, related⟩ := h x (List.mem_cons_self ..)
    rw [List.filterMap_cons_some written]
    exact .cons related (ih fun x mem => h x (List.mem_cons_of_mem _ mem))

theorem Coherent.resolves (h : g.Coherent) :
    List.Forall₂ g.Resolves g.save.connections g.connections := by
  apply forall₂_filterMap
  intro c mem
  obtain ⟨outputSide, inputSide, ho, hi⟩ := h.linked.ends c mem
  obtain ⟨o, ho⟩ := Option.isSome_iff_exists.1 ho
  obtain ⟨i, hi⟩ := Option.isSome_iff_exists.1 hi
  have named : ∀ {p s}, g.socket? p = some s →
      g.namedSocket p.block p.side s.spec.name = .ok p := by
    intro p s hs
    obtain ⟨n, hn, here⟩ := node?_of_socket? hs
    have distinct := h.declares.nodup_names (fun _ standard => standard) hn p.side
    exact namedSocket_of_nodup hn distinct here
  refine ⟨⟨c.output.block, o.spec.name, c.input.block, i.spec.name⟩, ?_, ?_, ?_⟩
  · rw [saveConnection?, ho, hi]
    rfl
  · have found := named ho
    rwa [outputSide] at found
  · have found := named hi
    rwa [inputSide] at found

theorem bareNodes_of_nodes (nodes : g'.nodes = g.bareNodes) : g'.bareNodes = g.bareNodes := by
  rw [bareNodes, nodes, bareNodes, List.map_map]
  refine List.map_congr_left ?_
  rintro ⟨id, n⟩ -
  simp [Node.unwired, Function.comp_def]

theorem pairwise_bareNodes (g : Graph) : (g.bareNodes.Pairwise fun a b => a.1 < b.1) ↔
    g.nodes.Pairwise fun a b => a.1 < b.1 :=
  List.pairwise_map

theorem Coherent.loadConnections (h : g.Coherent) {loaded : Graph} (bare : loaded.Bare)
    (nodes : loaded.nodes = g.bareNodes) :
    ∃ g', g.save.connections.foldlM Graph.loadConnection loaded = .ok g' ∧
      g.Same { g' with output := g.output } := by
  have blocks := bareNodes_of_nodes nodes
  have unwires := unwires_of_bareNodes blocks
  have resolves : List.Forall₂ loaded.Resolves g.save.connections g.connections :=
    h.resolves.imp fun _ _ => unwires.resolves_iff.2
  have accepts : loaded.Accepts g.save.connections := {
    named := names_of_resolves resolves
    once := (nodup_iff_oneFeeder resolves).2 h.linked.one_feeder
    acyclic := (h.linked.acyclic_iff resolves).1 h.acyclic }
  obtain ⟨g', run⟩ := (bare.run_iff _).2 accepts
  have replays := bare.replays.of_run run
  have linked := replays.linked
  have blocks' : g'.bareNodes = g.bareNodes := replays.blocks.trans blocks
  refine ⟨g', run, h.linked.same ?_ h.sorted ?_ ?_ ?_ rfl⟩
  · exact ⟨linked.ends, linked.one_feeder, linked.peer_eq, linked.endpoints_eq⟩
  · exact (pairwise_bareNodes g').1 (blocks' ▸ (pairwise_bareNodes g).2 h.sorted)
  · exact unwires_of_bareNodes blocks'
  · exact List.right_unique_forall₂' loaded.rightUnique_resolves replays.made resolves

/-- A coherent graph loads as it is read again block by block and literal by literal. -/
theorem Coherent.load_save (h : g.Coherent) :
    EndAlike Graph.Same g.reread (load .standard g.save) := by
  have blocks := h.loadBlocks_alike
  cases read : g.reread with
  | error e =>
    rw [load, blocks.of_error read]
    exact .error e
  | ok g' =>
    obtain ⟨loaded, done, nodes⟩ := blocks.of_ok read
    have resets := h.resets_of_reread read
    have coherent := resets.coherent h
    obtain ⟨linked, run, same⟩ := coherent.loadConnections (bare_of_loadBlocks done) nodes
    rw [resets.connections_save] at run
    have output : g'.output = g.save.output := resets.output
    rw [output] at same
    have exists_ : ∀ id, g.save.output = some id → linked.hasBlock id := by
      intro id hid
      have here := coherent.output_exists id (output.trans hid)
      rwa [← same.hasBlock] at here
    rw [(load_eq_ok_iff _ _ done _).2 ⟨linked, run, exists_, rfl⟩]
    exact .ok same

/-- Where some blocks are not read again, loading fails as the first one of them does. -/
theorem Coherent.load_first_error (h : g.Coherent) {P : Node → Prop}
    (done : ∀ id n, g.node? id = some n → P n → ∃ n', n.reread id = .ok n')
    (some_not : ¬ ∀ id n, g.node? id = some n → P n) :
    ∃ id n, g.node? id = some n ∧ ¬ P n ∧
      ∀ e, n.reread id = .error e → load .standard g.save = .error e := by
  have entries : ∀ entry ∈ g.nodes, P entry.2 → ∃ entry', rereadEntry entry = .ok entry' := by
    intro entry mem holds
    obtain ⟨n', read⟩ := done _ _ (h.node?_of_mem mem) holds
    rw [rereadEntry, read]
    exact ⟨_, rfl⟩
  rw [h.forall_node?_iff] at some_not
  obtain ⟨⟨id, n⟩, mem, not, failure⟩ := exists_first_failure entries some_not
  refine ⟨id, n, h.node?_of_mem mem, not, fun e failed => h.load_save.of_error ?_⟩
  have failed : rereadEntry (id, n) = .error e := by
    rw [rereadEntry, failed]
    rfl
  rw [reread, failure _ failed]
  rfl

end

end Graph
end MeshFlow
