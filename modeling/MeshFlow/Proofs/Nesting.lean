import MeshFlow.Proofs.Placing

set_option autoImplicit false

/-!
# Meshes put together in stages

Meshes with whole vertices may be put together in stages: fills that come in early or late, buffers
that one part alone has and indices that are moved up twice all come out the same. So a block that
puts geometries together makes the same of them as of what they have been put together from, and
blocks of this kind that feed one another come to what one of them would with all that they read.
-/
namespace MeshFlow
open Program Block

namespace Mesh

theorem length_positions_append (a b : Mesh) :
    (a ++ b).positions.length % 3 = a.positions.length % 3 := by
  rw [positions_append, List.length_append, length_wholePositions]
  omega

theorem wholePositions_append {a : Mesh} (whole : a.positions.length % 3 = 0) (b : Mesh) :
    (a ++ b).wholePositions = a.wholePositions ++ b.wholePositions := by
  have both := (length_positions_append a b).trans whole
  rw [wholePositions_of_whole both, wholePositions_of_whole whole, positions_append]

theorem joinedBuffer?_nested {k : Attribute} (h : k ≠ .position) (a b c : Mesh) :
    joinedBuffer? [a, b ++ c] k = joinedBuffer? [a, b, c] k := by
  simp [joinedBuffer?, isSome_buffer?_append h, entries_append h]

theorem joinedIndices?_nested (a b c : Mesh) :
    joinedIndices? [a, b ++ c] = joinedIndices? [a, b, c] := by
  simp [joinedIndices?, isSome_indices_append, shiftedIndices_append, joinedIndicesAfter]

/-- Whatever attributes and indices the meshes have, it does not matter which two are joined first,
unless the second one has floats left over behind its positions. -/
theorem append_assoc {b : Mesh} (whole : b.positions.length % 3 = 0) (a c : Mesh) :
    a ++ b ++ c = a ++ (b ++ c) := by
  rw [show a ++ b ++ c = a.merge [b, c] from (merge_cons a b [c]).symm]
  change _ = a.merge [b ++ c]
  simp [merge, wholePositions_append whole, joinedBuffer?_nested, joinedIndices?_nested]

theorem merge_append (a : Mesh) (parts parts' : List Mesh) :
    a.merge (parts ++ parts') = (a.merge parts).merge parts' := by
  rw [merge_eq_foldl, List.foldl_append, ← merge_eq_foldl, ← merge_eq_foldl]

theorem length_positions_merge (a : Mesh) (rest : List Mesh) :
    (a.merge rest).positions.length % 3 = a.positions.length % 3 := by
  induction rest generalizing a with
  | nil => rfl
  | cons b rest ih => rw [merge_cons, ih, length_positions_append]

theorem append_merge {b : Mesh} (whole : b.positions.length % 3 = 0) (a : Mesh) (rest : List Mesh) :
    a ++ b.merge rest = a.merge (b :: rest) := by
  rw [merge_cons]
  induction rest generalizing b with
  | nil => rfl
  | cons c rest ih =>
    have both := (length_positions_append b c).trans whole
    rw [merge_cons, ih both, ← append_assoc whole, ← merge_cons]

/-- The meshes are what groups of parts come to, each put together on its own. -/
def AreMerged (meshes : List Mesh) (groups : List (List Mesh)) : Prop :=
  List.Forall₂ (fun m group => mergeAll? group = some m) meshes groups

variable {meshes : List Mesh} {groups : List (List Mesh)}

theorem exists_areMerged (group : List Mesh) :
    ∃ groups, AreMerged (mergeAll? group).toList groups ∧ groups.flatten = group := by
  cases group with
  | nil => exact ⟨[], .nil, rfl⟩
  | cons first rest => exact ⟨[first :: rest], .cons rfl .nil, List.append_nil _⟩

theorem AreMerged.whole (h : AreMerged meshes groups)
    (whole : ∀ m ∈ groups.flatten, m.positions.length % 3 = 0) :
    ∀ m ∈ meshes, m.positions.length % 3 = 0 := by
  induction h with
  | nil => exact fun _ mem => (List.not_mem_nil mem).elim
  | @cons m group meshes groups merged _ ih =>
    intro p hp
    rcases List.mem_cons.1 hp with rfl | later
    · cases group with
      | nil => cases merged
      | cons b rest =>
        cases merged
        exact (length_positions_merge b rest).trans (whole b (by simp))
    · exact ih (fun q hq => whole q (by simp [hq])) p later

theorem AreMerged.merge_eq (h : AreMerged meshes groups)
    (whole : ∀ m ∈ groups.flatten, m.positions.length % 3 = 0) (a : Mesh) :
    a.merge meshes = a.merge groups.flatten := by
  induction h generalizing a with
  | nil => rfl
  | @cons m group meshes groups merged _ ih =>
    cases group with
    | nil => cases merged
    | cons b rest =>
      cases merged
      have first : b.positions.length % 3 = 0 := whole b (by simp)
      rw [List.flatten_cons, merge_append, merge_cons, append_merge first]
      exact ih (fun p hp => whole p (by simp [hp])) _

theorem AreMerged.mergeAll?_eq (h : AreMerged meshes groups)
    (whole : ∀ m ∈ groups.flatten, m.positions.length % 3 = 0) :
    mergeAll? meshes = mergeAll? groups.flatten := by
  cases h with
  | nil => rfl
  | @cons m group meshes groups merged others =>
    cases group with
    | nil => cases merged
    | cons b rest =>
      cases merged
      have later := AreMerged.merge_eq others (fun p hp => whole p (by simp [hp])) (b.merge rest)
      change some ((b.merge rest).merge meshes) = some (b.merge (rest ++ groups.flatten))
      rw [later, merge_append]

theorem mergeAll?_toList (m? : Option Mesh) : mergeAll? m?.toList = m? := by
  cases m? <;> rfl

theorem filter_mergeAll? {parts : List Mesh} (positions : ∀ m ∈ parts, m.hasPositions = true) :
    (mergeAll? parts).filter hasPositions = mergeAll? parts := by
  cases parts with
  | nil => rfl
  | cons first rest =>
    have some : first.hasPositions = true := positions first (by simp)
    have all : (first.merge rest).hasPositions = true := by
      rw [merge]
      split
      · exact some
      · simp_all [hasPositions]
    simp [mergeAll?, all]

end Mesh

def mergeInputs (id : BlockId) : List SocketId := (List.range 5).map (.input id ·)

namespace Graph

/-- The input is fed by a block that puts geometries together at every read. -/
def Nested (g : Graph) (s : Session) (p : SocketId) (id : BlockId) : Prop :=
  g.peer? p = some (.output id 0) ∧ id ∈ s.built ∧
    s.stored.lookup (.output id 0) = some (.deferred id mergeProgram)

/-- The geometries with positions that inputs yield one after the other. In the place of an input
that is fed by a block which puts geometries together stands all that the inputs of that one yield.
-/
inductive Gathers (g : Graph) : List SocketId → Session → List Mesh → Session → Prop
  | nil (s : Session) : g.Gathers [] s [] s
  | read {p : SocketId} {rest : List SocketId} {s s' s'' : Session} {m? : Option Mesh}
    {parts : List Mesh} :
    (∀ id, ¬ g.Nested s p id) → (g.readMesh? g.supplier p).run s = some (m?, s') →
    g.Gathers rest s' parts s'' →
    g.Gathers (p :: rest) s ((m?.filter Mesh.hasPositions).toList ++ parts) s''
  | nested {p : SocketId} {rest : List SocketId} {s s' t s'' : Session} {id : BlockId}
    {inner parts : List Mesh} {m? : Option Mesh} :
    g.Nested s p id → g.Gathers (mergeInputs id) s inner s' →
    (g.readMesh? g.supplier p).run s = some (m?, t) → g.Gathers rest t parts s'' →
    g.Gathers (p :: rest) s (inner ++ parts) s''

variable {g : Graph} {s s' : Session} {id : BlockId}

theorem Gathers.hasPositions {inputs : List SocketId} {parts : List Mesh}
    (h : g.Gathers inputs s parts s') : ∀ m ∈ parts, m.hasPositions = true := by
  induction h with
  | nil => simp
  | @read _ _ _ _ _ m? _ _ _ _ ih =>
    intro m hm
    rcases List.mem_append.1 hm with first | later
    · exact (Option.mem_filter_iff.1 (Option.mem_toList.1 first)).2
    · exact ih m later
  | nested _ _ _ _ ih ih' =>
    intro m hm
    rcases List.mem_append.1 hm with first | later
    · exact ih m first
    · exact ih' m later

theorem Gathers.unique {inputs : List SocketId} {parts parts' : List Mesh} {t : Session}
    (h : g.Gathers inputs s parts s') (h' : g.Gathers inputs s parts' t) :
    parts = parts' ∧ s' = t := by
  induction h generalizing parts' t with
  | nil =>
    cases h'
    exact ⟨rfl, rfl⟩
  | read plain run _ ih =>
    cases h' with
    | read _ run' others =>
      cases run.symm.trans run'
      obtain ⟨rfl, rfl⟩ := ih others
      exact ⟨rfl, rfl⟩
    | nested nested => exact absurd nested (plain _)
  | nested nested _ run _ ih ih' =>
    cases h' with
    | read plain => exact absurd nested (plain _)
    | nested nested' deep run' others =>
      cases nested.1.symm.trans nested'.1
      cases run.symm.trans run'
      obtain ⟨rfl, -⟩ := ih deep
      obtain ⟨rfl, rfl⟩ := ih' others
      exact ⟨rfl, rfl⟩

theorem InOrder.readMesh?_nested (order : g.InOrder) (orderly : s.Orderly g) {p : SocketId}
    (nested : g.Nested s p id) {m? : Option Mesh}
    (run : (g.runProgram g.supplier id mergeProgram).run s = some (.ofMesh? m?, s')) :
    (g.readMesh? g.supplier p).run s = some (m?, s') := by
  obtain ⟨peer, built, kept⟩ := nested
  have read : (g.supplier.read (.output id 0)).run s = some (.ofMesh? m?, s') := by
    obtain ⟨v, t, read, -⟩ := order.serves.read (.output id 0) s (order.low id) orderly.sound
    have deeper := read_deferred built kept v t read
    cases run.symm.trans deeper
    exact read
  have input : g.readInput g.supplier p = g.supplier.read (.output id 0) := by
    unfold Graph.peer? at peer
    unfold Graph.readInput
    cases hs : g.socket? p with
    | none => simp [hs] at peer
    | some socket =>
      rw [hs, Option.bind_some] at peer
      simp only [peer]
  rw [readMesh?, adaptInput, input]
  simp only [StateT.run_bind, read, Option.bind_eq_bind, Option.bind_some]
  cases m? <;> rfl

theorem run_bind {α β : Type} {above : Supplier} {p : Program α} {a : α} (f : α → Program β)
    (first : (g.runProgram above id p).run s = some (a, s')) :
    (g.runProgram above id (p.bind f)).run s = (g.runProgram above id (f a)).run s' := by
  rw [runProgram_bind, StateT.run_bind, first]
  rfl

theorem run_gatherMeshes_cons {above : Supplier} {i : Nat} {inputs : List Nat} {s'' : Session}
    {m? : Option Mesh} {meshes : List Mesh}
    (first : (g.readMesh? above (.input id i)).run s = some (m?, s'))
    (others : (g.runProgram above id (gatherMeshes inputs)).run s' = some (meshes, s'')) :
    (g.runProgram above id (gatherMeshes (i :: inputs))).run s
      = some ((m?.filter Mesh.hasPositions).toList ++ meshes, s'') :=
  (run_bind (p := mesh? i) _ first).trans (run_bind _ others)

theorem run_mergeProgram {above : Supplier} {meshes : List Mesh}
    (gathered : (g.runProgram above id (gatherMeshes (List.range 5))).run s = some (meshes, s')) :
    (g.runProgram above id mergeProgram).run s
      = some (.ofMesh? (Mesh.mergeAll? meshes),
        s'.noting (Mesh.overflows meshes) (Mesh.totalVertices meshes)) := by
  refine (run_bind joined gathered).trans ?_
  rw [joined, handOn, Session.noting]
  split <;> rfl

/-- What is gathered at the inputs of a block is, read by read, what it puts together, or is put
together to what it does. -/
theorem InOrder.run_gatherMeshes (order : g.InOrder) {sockets : List SocketId} {parts : List Mesh}
    (gathers : g.Gathers sockets s parts s') {inputs : List Nat}
    (own : sockets = inputs.map (.input id ·)) (underway : g.InPass s)
    (whole : ∀ m ∈ parts, m.positions.length % 3 = 0) :
    g.InPass s' ∧ ∃ meshes groups,
      (g.runProgram g.supplier id (gatherMeshes inputs)).run s = some (meshes, s') ∧
      Mesh.AreMerged meshes groups ∧ groups.flatten = parts := by
  induction gathers generalizing id inputs with
  | nil =>
    obtain rfl : inputs = [] := List.map_eq_nil_iff.1 own.symm
    exact ⟨underway, [], [], rfl, .nil, rfl⟩
  | @read p rest s s' s'' m? parts _ run _ ih =>
    obtain ⟨i, inputs, rfl, rfl, rfl⟩ := List.map_eq_cons_iff.1 own.symm
    obtain ⟨underway', -⟩ := underway.readMesh? run
    obtain ⟨underway'', meshes, groups, others, merged, rfl⟩ :=
      ih rfl underway' fun m hm => whole m (List.mem_append_right _ hm)
    obtain ⟨single, alone, rest⟩ := Mesh.exists_areMerged (m?.filter Mesh.hasPositions).toList
    rw [Mesh.mergeAll?_toList] at alone
    exact ⟨underway'', _, single ++ groups, run_gatherMeshes_cons run others,
      List.rel_append alone merged, by rw [List.flatten_append, rest]⟩
  | @nested p rest s s' t s'' inner_id inner parts m? nested deep reads _ ih ih' =>
    obtain ⟨i, inputs, rfl, rfl, rfl⟩ := List.map_eq_cons_iff.1 own.symm
    obtain ⟨-, meshes', groups', run, merged', rfl⟩ :=
      ih rfl underway fun m hm => whole m (List.mem_append_left _ hm)
    obtain ⟨underway'', meshes, groups, others, merged, rfl⟩ :=
      ih' rfl (underway.readMesh? reads).1 fun m hm => whole m (List.mem_append_right _ hm)
    have read := order.readMesh?_nested (underway.orderly order) nested (run_mergeProgram run)
    rw [merged'.mergeAll?_eq fun m hm => whole m (List.mem_append_left _ hm)] at read
    cases read.symm.trans reads
    obtain ⟨single, alone, rest⟩ := Mesh.exists_areMerged groups'.flatten
    rw [← Mesh.filter_mergeAll? deep.hasPositions] at alone
    exact ⟨underway'', _, single ++ groups, run_gatherMeshes_cons read others,
      List.rel_append alone merged, by rw [List.flatten_append, rest]⟩

theorem InOrder.run_merge (order : g.InOrder) (underway : g.InPass s) {parts : List Mesh}
    (gathers : g.Gathers (mergeInputs id) s parts s')
    (whole : ∀ m ∈ parts, m.positions.length % 3 = 0) :
    ∃ t, (g.runProgram g.supplier id mergeProgram).run s
      = some (.ofMesh? (Mesh.mergeAll? parts), t) := by
  obtain ⟨-, meshes, groups, run, merged, rfl⟩ :=
    order.run_gatherMeshes gathers rfl underway whole
  exact ⟨_, by rw [run_mergeProgram run, merged.mergeAll?_eq whole]⟩

theorem InOrder.exists_gathers (order : g.InOrder) (inputs : List Nat) (underway : g.InPass s) :
    ∃ parts s', g.Gathers (inputs.map (.input id ·)) s parts s' ∧ g.InPass s' := by
  -- A block that feeds another stands lower; the inputs of one block are gone through in order.
  induction height : g.height id using Nat.strong_induction_on generalizing id inputs s with
  | _ n lower =>
    induction inputs generalizing s with
    | nil => exact ⟨[], s, .nil s, underway⟩
    | cons i rest ih =>
      by_cases fed : ∃ below, g.Nested s (.input id i) below
      · obtain ⟨below, nested⟩ := fed
        have less := order.acyclic.height_lt (order.wired.feeds_of_peer? nested.1)
        obtain ⟨inner, s', deep, -⟩ := lower _ (height ▸ less) (List.range 5) underway rfl
        obtain ⟨m?, t, -, -, run⟩ := order.ends_mesh? (underway.orderly order) i
        obtain ⟨underway', -⟩ := underway.readMesh? run
        obtain ⟨parts, s'', others, underway''⟩ := ih underway'
        exact ⟨inner ++ parts, s'', .nested nested deep run others, underway''⟩
      · obtain ⟨m?, s', -, -, run⟩ := order.ends_mesh? (underway.orderly order) i
        obtain ⟨underway', -⟩ := underway.readMesh? run
        obtain ⟨parts, s'', others, underway''⟩ := ih underway'
        exact ⟨_, s'', .read (fun below nested => fed ⟨below, nested⟩) run others, underway''⟩

/-- A value is what all that is gathered at the inputs of a block comes to at once; and if some of
that has been put together itself, by another block at another moment, it is what the parts of all
come to. -/
def MergesFlat (g : Graph) (id : BlockId) (s : Session) (v : Value) : Prop :=
  ∃ parts s', g.Gathers (mergeInputs id) s parts s' ∧
    ∀ groups, Mesh.AreMerged parts groups → (∀ m ∈ groups.flatten, m.validate = .ok ()) →
      v = .ofMesh? (Mesh.mergeAll? groups.flatten)

theorem InOrder.ends_merge (order : g.InOrder) (underway : g.InPass s) :
    Ends (g.runProgram g.supplier id mergeProgram) s fun v _ => g.MergesFlat id s v := by
  obtain ⟨parts, s', gathers, -⟩ := order.exists_gathers (List.range 5) underway
  refine (order.ends_program (underway.orderly order) id plain_merge.restores).mono ?_
  rintro v t ⟨-, run⟩
  refine ⟨parts, s', gathers, fun groups merged valid => ?_⟩
  have whole : ∀ m ∈ groups.flatten, m.positions.length % 3 = 0 := fun m hm =>
    ((m.validate_eq_ok_iff).1 (valid m hm)).whole_vertices
  obtain ⟨_, made⟩ := order.run_merge underway gathers (merged.whole whole)
  rw [merged.mergeAll?_eq whole] at made
  cases run.symm.trans made
  rfl

/-- Three valid meshes are joined to the same, whichever two are joined first; and at any moment of
a pass, a block that puts geometries together comes to what one of its kind would with all the
geometries at once that stand behind its inputs, however many blocks of this kind stand in between.
-/
theorem merges_flat :
    (∀ a b c : Mesh, a.validate = .ok () → b.validate = .ok () → c.validate = .ok () →
      a ++ b ++ c = a ++ (b ++ c)) ∧
    ∀ g : Graph, g.ReachableWith Block.IsStandard → ∀ id n everyRead, g.node? id = some n →
      n.block = .merge everyRead → g.Evaluates id n mergeProgram (g.MergesFlat id) := by
  refine ⟨fun a b c _ valid _ => ?_, fun g h id n everyRead hn hb => ?_⟩
  · exact Mesh.append_assoc ((b.validate_eq_ok_iff).1 valid).whole_vertices a c
  · have order := ReachableWith.inOrder h
    exact order.evaluates hn hb (List.cons_ne_nil _ _) rfl fun s underway =>
      order.ends_merge underway

/-- Two triangles put together, and put together with a vertex that has a color. -/
def chained : Graph :=
  [.add "triangle" (.mesh (some Mesh.upright) false), .add "vertex" (.mesh (some Mesh.spot) false),
    .add "inner" (.merge true), .add "outer" (.merge true),
    .connectUnchecked (.output 0 0) (.input 2 0), .connectUnchecked (.output 0 0) (.input 2 3),
    .connectUnchecked (.output 1 0) (.input 3 0),
    .connectUnchecked (.output 2 0) (.input 3 1)].foldl Edit.apply .empty

theorem reachable_chained : chained.ReachableWith Block.IsStandard := by
  refine ReachableBy.foldl .empty _ ?_
  refine ⟨⟨?_, trivial⟩, ⟨?_, trivial⟩, ⟨?_, trivial⟩, ⟨?_, trivial⟩, ⟨trivial, trivial⟩,
    ⟨trivial, trivial⟩, ⟨trivial, trivial⟩, ⟨trivial, trivial⟩, trivial⟩ <;> decide +kernel

def paired : Session :=
  { Session.start {} with
    stored := [(.output 2 0, .deferred 2 mergeProgram),
      (.output 0 0, .value (.geometry Mesh.upright)), (.output 1 0, .value (.geometry Mesh.spot))]
    built := [0, 2, 1] }

theorem inPass_paired : chained.InPass paired := by
  let first : Session :=
    { Session.start {} with
      stored := [(.output 1 0, .value (.geometry Mesh.spot))]
      built := [1] }
  have underway : chained.InPass first :=
    .build (.start {}) (show (chained.supplier.build 1).run _ = some ((), first) from rfl)
  exact .build underway (show (chained.supplier.build 2).run first = some ((), paired) from rfl)

theorem gathers_paired :
    chained.Gathers (mergeInputs 3) paired [Mesh.spot, Mesh.upright, Mesh.upright] paired := by
  have absent : ∀ {p rest parts}, chained.peer? p = none →
      (chained.readMesh? chained.supplier p).run paired = some (none, paired) →
      chained.Gathers rest paired parts paired → chained.Gathers (p :: rest) paired parts paired :=
    fun unfed => .read fun _ nested => nomatch unfed.symm.trans nested.1
  have present : ∀ {p rest parts source} m, chained.peer? p = some source →
      paired.stored.lookup source = some (.value (.geometry m)) →
      (chained.readMesh? chained.supplier p).run paired = some (some m, paired) →
      m.hasPositions = true → chained.Gathers rest paired parts paired →
      chained.Gathers (p :: rest) paired (m :: parts) paired := by
    intro p rest parts source m peer value run positions others
    have plain : ∀ id, ¬ chained.Nested paired p id := by
      rintro id ⟨peer', -, deferred⟩
      cases peer.symm.trans peer'
      cases value.symm.trans deferred
    simpa [Option.filter, positions] using Gathers.read plain run others
  have inner : chained.Gathers (mergeInputs 2) paired [Mesh.upright, Mesh.upright] paired :=
    present Mesh.upright rfl rfl rfl rfl (absent rfl rfl (absent rfl rfl
      (present Mesh.upright rfl rfl rfl rfl (absent rfl rfl (.nil _)))))
  exact present Mesh.spot rfl rfl rfl rfl (.nested ⟨rfl, by decide, rfl⟩ inner
    (show _ = some (_, paired) from rfl) (absent rfl rfl (absent rfl rfl (absent rfl rfl (.nil _)))))

theorem merges_chained :
    Mesh.upright ++ Mesh.spot ++ Mesh.upright = Mesh.upright ++ (Mesh.spot ++ Mesh.upright) ∧
    Ends (chained.runProgram chained.supplier 3 mergeProgram) paired fun v _ =>
      v = .ofMesh? (Mesh.mergeAll? [Mesh.spot, Mesh.upright, Mesh.upright]) := by
  obtain ⟨assoc, flat⟩ := merges_flat
  refine ⟨assoc _ _ _ (by decide +kernel) (by decide +kernel) (by decide +kernel), ?_⟩
  obtain ⟨n, hn, hb⟩ : ∃ n, chained.node? 3 = some n ∧ n.block = .merge true := ⟨_, rfl, rfl⟩
  refine ((flat chained reachable_chained 3 n true hn hb).runs _ inPass_paired).mono ?_
  rintro v _ ⟨parts, s', gathers, flattens⟩
  obtain ⟨rfl, -⟩ := gathers.unique gathers_paired
  refine flattens [[Mesh.spot], [Mesh.upright], [Mesh.upright]] ?_ ?_
  · exact .cons rfl (.cons rfl (.cons rfl .nil))
  · decide +kernel

end Graph
end MeshFlow
