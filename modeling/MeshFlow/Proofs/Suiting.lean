import MeshFlow.Proofs.Kinds

set_option autoImplicit false

/-!
# Connections that suit

A connection is checked when it is made, against the kinds of that moment. The kind of an output
that derives it is worked out anew from the connections above whenever it is asked for, so that an
edit above can leave a connection behind that would not be let in again. All other connections suit
for as long as they last, and so do those above whose output nothing changes.
-/
namespace MeshFlow

theorem Block.IsStandard.outputKind_eq {b : Block} (h : b.IsStandard) (own : ¬ b.Derives)
    (left left' : Kind) (index : Nat) : b.outputKind left index = b.outputKind left' index := by
  cases hs : b.outputSpecs[index]? with
  | none => rw [outputKind, outputKind, hs]
  | some spec =>
    rcases h.outputKind_cases (List.mem_of_getElem? hs) with declared | ⟨detected, -⟩ | ⟨-, derives⟩
    · rw [outputKind_of_declared hs declared, outputKind_of_declared hs declared]
    · rw [outputKind, outputKind, hs]
      simp only [detected]
    · exact absurd derives own

def Edit.IsChecked : Edit → Prop
  | connectUnchecked .. | setBlock .. => False
  | _ => True

/-- Edits of standard graphs that look at the kinds of connections. -/
def Edit.Checked (g : Graph) (e : Edit) : Prop :=
  (e.Fits g ∧ e.Brings Block.IsStandard g) ∧ e.IsChecked

namespace Graph
variable {g g' : Graph}

/-- The rule by which kinds are let in. -/
def Suits (g : Graph) (output input : SocketId) : Prop :=
  ∃ target, g.socket? input = some target ∧
    (g.resolvedKind output = g.resolvedKind input ∨ target.spec.kind = .autoDetect ∨
      g.resolvedKind output ∈ target.spec.accepted)

/-- The inputs that the kind of an output comes down from: the first one of its block, if the block
takes over its kind, and those that the kind of what feeds this one comes down from. -/
inductive DerivesFrom (g : Graph) : SocketId → SocketId → Prop where
  | own {id : BlockId} {index : Nat} {n : Node} : g.node? id = some n → n.block.Derives →
    DerivesFrom g (.output id index) (.input id 0)
  | above {id : BlockId} {index : Nat} {n : Node} {o p : SocketId} : g.node? id = some n →
    n.block.Derives → g.peer? (.input id 0) = some o → DerivesFrom g o p →
    DerivesFrom g (.output id index) p

structure InOrder (g : Graph) : Prop where
  wired : g.Wired
  acyclic : g.Acyclic
  declares : g.Declares Block.IsStandard

theorem ReachableWith.inOrder (h : g.ReachableWith Block.IsStandard) : g.InOrder :=
  ⟨Reachable.wired (ReachableWith.reachable h), Reachable.acyclic (ReachableWith.reachable h),
    ReachableWith.declares (fun _ standard => standard) h⟩

/-- Blocks that are in both graphs are the same. -/
def SameBlocks (g g' : Graph) : Prop :=
  ∀ id n n', g.node? id = some n → g'.node? id = some n' → n'.block = n.block

theorem SameBlocks.spec (same : g.SameBlocks g') (h : g.InOrder) (h' : g'.InOrder) {p : SocketId}
    {s s' : MeshFlow.Socket} (hs : g.socket? p = some s) (hs' : g'.socket? p = some s') :
    s'.spec = s.spec := by
  obtain ⟨n, hn, hs⟩ := node?_of_socket? hs
  obtain ⟨n', hn', hs'⟩ := node?_of_socket? hs'
  have specs : (n'.sockets p.side).map (·.spec) = (n.sockets p.side).map (·.spec) := by
    obtain ⟨inputs, outputs⟩ := h.declares.specs _ n hn
    obtain ⟨inputs', outputs'⟩ := h'.declares.specs _ n' hn'
    have block := same _ n n' hn hn'
    cases p.side with
    | input => exact inputs'.trans ((congrArg Block.inputSpecs block).trans inputs.symm)
    | output => exact outputs'.trans ((congrArg Block.outputSpecs block).trans outputs.symm)
  have entry := congrArg (·[p.index]?) specs
  simp only [List.getElem?_map] at entry
  change (n.sockets p.side)[p.index]? = some s at hs
  change (n'.sockets p.side)[p.index]? = some s' at hs'
  rw [hs, hs'] at entry
  exact Option.some.inj entry

theorem SameBlocks.resolvedKind (same : g.SameBlocks g') (h : g.InOrder) (h' : g'.InOrder)
    {o : SocketId} (side : o.side = .output) (has : g.hasBlock o.block) (has' : g'.hasBlock o.block)
    (quiet : ∀ p, g.DerivesFrom o p → g'.peer? p = g.peer? p) :
    g'.resolvedKind o = g.resolvedKind o := by
  -- Up along what feeds the first inputs of blocks that derive their kind.
  induction height : g.height o.block using Nat.strong_induction_on generalizing o with
  | _ _ ih =>
    obtain ⟨id, _, index⟩ := o
    cases side
    obtain ⟨n, hn⟩ := Option.isSome_iff_exists.1 has
    obtain ⟨n', hn'⟩ := Option.isSome_iff_exists.1 has'
    have kind := resolvedKind_output h.wired h.acyclic h.declares hn index
    have kind' := resolvedKind_output h'.wired h'.acyclic h'.declares hn' index
    rw [SocketId.output] at kind kind'
    rw [kind, kind', same id n n' hn hn']
    by_cases derives : n.block.Derives
    · have peer : g'.peer? (.input id 0) = g.peer? (.input id 0) := quiet _ (.own hn derives)
      have left : g'.leftKind id = g.leftKind id := by
        rw [leftKind, leftKind, peer]
        cases fed : g.peer? (.input id 0) with
        | none => rfl
        | some o =>
          have feeds := h.wired.feeds_of_peer? fed
          have feeds' := h'.wired.feeds_of_peer? (peer.trans fed)
          obtain ⟨socket, hs, connected⟩ := Option.bind_eq_some_iff.1 fed
          subst height
          exact ih _ (h.acyclic.height_lt feeds) (h.wired.feeder hs connected).1
            (h.wired.hasBlock_of_reaches (.single feeds))
            (h'.wired.hasBlock_of_reaches (.single feeds'))
            (fun p below => quiet p (.above hn derives fed below)) rfl
      rw [left]
    · exact (h.declares.sort id n hn).outputKind_eq derives ..

theorem InOrder.suits_iff (h : g.InOrder) {o i : SocketId} (side : i.side = .input) :
    g.Suits o i ↔ ∃ target, g.socket? i = some target ∧ (target.spec.kind = .autoDetect ∨
      g.resolvedKind o = target.spec.kind ∨ g.resolvedKind o ∈ target.spec.accepted) := by
  refine exists_congr fun target => and_congr_right fun ht => ?_
  by_cases detects : target.spec.kind = .autoDetect
  · simp [detects]
  · have own : g.resolvedKind i = target.spec.kind := by
      refine resolvedKind_of_declared ht ?_
      obtain ⟨n, hn, hs⟩ := node?_of_socket? ht
      have mem : target.spec ∈ n.block.inputSpecs := by
        rw [← (h.declares.specs _ n hn).1]
        rw [Node.socket?, side] at hs
        exact List.mem_map_of_mem (List.mem_of_getElem? hs)
      have derived := (h.declares.sort _ n hn).inputKind_ne mem
      cases kind : target.spec.kind <;> first | rfl | contradiction
    rw [own]
    simp [detects]

theorem hasBlock_of_socket? {p : SocketId} (h : (g.socket? p).isSome) : g.hasBlock p.block := by
  obtain ⟨s, hs⟩ := Option.isSome_iff_exists.1 h
  obtain ⟨n, hn, -⟩ := node?_of_socket? hs
  rw [hasBlock, hn]
  rfl

theorem SameBlocks.suits (same : g.SameBlocks g') (h : g.InOrder) (h' : g'.InOrder)
    {o i : SocketId} (oriented : g.Oriented o i o i) (oriented' : g'.Oriented o i o i)
    (quiet : ∀ p, g.DerivesFrom o p → g'.peer? p = g.peer? p) (suits : g.Suits o i) :
    g'.Suits o i := by
  have kind := same.resolvedKind h h' oriented.output (hasBlock_of_socket? oriented.output_exists)
    (hasBlock_of_socket? oriented'.output_exists) quiet
  rw [h.suits_iff oriented.input] at suits
  rw [h'.suits_iff oriented.input, kind]
  obtain ⟨target, ht, rule⟩ := suits
  obtain ⟨target', ht'⟩ := Option.isSome_iff_exists.1 oriented'.input_exists
  refine ⟨target', ht', ?_⟩
  rw [same.spec h h' ht ht']
  exact rule

theorem Wired.sameBlocks_apply (h : g.Wired) {e : Edit} (checked : e.IsChecked) :
    g.SameBlocks (e.apply g) := by
  intro id n n' hn hn'
  have has : g.hasBlock id := by
    rw [hasBlock, hn]
    rfl
  rcases node?_apply hn' with ⟨m, hm, alike⟩ | ⟨name, block, rfl | rfl, -⟩ | ⟨_, _, rfl, -⟩
  · rw [hn] at hm
    cases hm
    exact alike.block
  · rcases orKeep_cases g ((g.add name block).map Prod.snd) with same | done
    · rw [Edit.apply, same, hn] at hn'
      cases hn'
      rfl
    · rw [Edit.apply, node?_add ((map_add_eq_ok_iff ..).1 done)] at hn'
      split at hn'
      · rename_i fresh
        rw [fresh] at has
        exact absurd (h.id_lt _ has) (UInt32.lt_irrefl _)
      · rw [hn] at hn'
        cases hn'
        rfl
  · have refused : g.insert id name block = .error (.duplicateBlockId id) := by
      rw [insert, if_pos has]
    rw [Edit.apply, refused] at hn'
    change g.node? id = some n' at hn'
    rw [hn] at hn'
    cases hn'
    rfl
  · exact checked.elim

theorem Wired.connect_of_new (h : g.Wired) {e : Edit} (checked : e.IsChecked) {c : Connection}
    (mem : c ∈ (e.apply g).connections) (new : c ∉ g.connections) :
    ∃ a b, g.connect a b = .ok (e.apply g) := by
  -- Every other edit leaves some of the connections that were there.
  have absurd_of_kept : ∀ keep : Connection → Bool,
      (e.apply g).connections = g.connections.filter keep → False := by
    intro keep kept
    rw [kept] at mem
    exact new (List.mem_of_mem_filter mem)
  have absurd_of_same : (e.apply g).connections = g.connections → False := by
    intro same
    rw [same] at mem
    exact new mem
  cases e with
  | add name block =>
    refine (absurd_of_same ?_).elim
    rcases orKeep_cases g ((g.add name block).map Prod.snd) with same | done
    · rw [Edit.apply, same]
    · obtain ⟨-, -, eq⟩ := (add_eq_ok_iff ..).1 ((map_add_eq_ok_iff ..).1 done)
      rw [Edit.apply, eq]
  | insert id name block =>
    refine (absurd_of_same ?_).elim
    rcases orKeep_cases g (g.insert id name block) with same | done
    · rw [Edit.apply, same]
    · obtain ⟨-, -, eq⟩ := (insert_eq_ok_iff ..).1 done
      rw [Edit.apply, eq]
  | remove id => exact (absurd_of_kept _ (h.remove id).2).elim
  | connect a b =>
    rcases orKeep_cases g (g.connect a b) with same | done
    · exact (absurd_of_same (by rw [Edit.apply, same])).elim
    · exact ⟨a, b, done⟩
  | disconnect a b =>
    cases attempt : g.disconnect? a b with
    | none => exact (absurd_of_same (by rw [Edit.apply, attempt]; rfl)).elim
    | some g' =>
      obtain ⟨o, i, -, there, rfl⟩ := (disconnect?_eq_some_iff ..).1 attempt
      refine (absurd_of_kept _ (Eq.trans ?_ (h.without_unlink there).connections)).elim
      rw [Edit.apply, attempt]
      rfl
  | disconnectAll p =>
    obtain ⟨g', eq, -, connections⟩ :=
      h.disconnectEach_filter fun c => decide (c.output = p ∨ c.input = p)
    refine (absurd_of_kept _ (Eq.trans ?_ connections)).elim
    rw [Edit.apply, Graph.disconnectAll, eq]
  | setDefault p v =>
    refine (absurd_of_same ?_).elim
    rcases orKeep_cases g (g.setDefault p v) with same | done
    · rw [Edit.apply, same]
    · obtain ⟨-, eq⟩ := (setDefault_eq_ok_iff ..).1 done
      rw [Edit.apply, eq]
      rfl
  | setOutput id =>
    refine (absurd_of_same ?_).elim
    rcases orKeep_cases g (g.setOutput id) with same | done
    · rw [Edit.apply, same]
    · obtain ⟨-, eq⟩ := (setOutput_eq_ok_iff ..).1 done
      rw [Edit.apply, eq]
  | connectUnchecked | setBlock => exact checked.elim

theorem suits_of_compatibility {o i : SocketId} (h : g.compatibility o i = .compatible) :
    g.Suits o i := by
  rw [compatibility] at h
  split at h
  · cases h
  · rename_i target ht
    split at h
    · rename_i lets
      simp only [letsIn, Bool.and_eq_true, Bool.or_eq_true, beq_iff_eq, List.contains_iff_mem]
        at lets
      exact ⟨target, ht, by simpa only [or_assoc] using lets.1⟩
    · cases h

theorem DerivesFrom.derives {o p : SocketId} (h : g.DerivesFrom o p) :
    ∃ n, g.node? o.block = some n ∧ n.block.Derives := by
  cases h with
  | own hn derives | above hn derives => exact ⟨_, hn, derives⟩

theorem DerivesFrom.eq_of_free {id : BlockId} {index : Nat} {p : SocketId}
    (h : g.DerivesFrom (.output id index) p) (free : g.peer? (.input id 0) = none) :
    p = .input id 0 := by
  cases h with
  | own => rfl
  | above _ _ fed =>
    rw [free] at fed
    cases fed

theorem DerivesFrom.block (wired : g.Wired) {o p : SocketId} (h : g.DerivesFrom o p) :
    p.block = o.block ∨ g.Reaches p.block o.block := by
  induction h with
  | own => exact .inl rfl
  | above hn derives fed _ ih =>
    have feeds := wired.feeds_of_peer? fed
    rcases ih with same | reaches
    · exact .inr (same ▸ .single feeds)
    · exact .inr (.tail reaches feeds)

/-- A connection that is new after a checked edit was let in, and leads to nothing that its output's
kind comes down from. -/
theorem InOrder.made_of_new (h : g.InOrder) {e : Edit} (checked : e.IsChecked)
    {c : Connection} (mem : c ∈ (e.apply g).connections) (new : c ∉ g.connections) :
    g.Oriented c.output c.input c.output c.input ∧
      g.compatibility c.output c.input = .compatible ∧
      ∀ p, g.DerivesFrom c.output p → (e.apply g).peer? p = g.peer? p := by
  obtain ⟨a, b, done⟩ := h.wired.connect_of_new checked mem new
  obtain ⟨o, i, target, oriented, ht, free, passes, linked⟩ := (connectIf_eq_ok_iff ..).1 done
  have made : c = ⟨o, i⟩ := by
    rw [linked] at mem
    change c ∈ g.connections ++ [⟨o, i⟩] at mem
    simpa [new] using mem
  subst made
  refine ⟨⟨.inl ⟨rfl, rfl⟩, oriented.output, oriented.input, oriented.output_exists,
    oriented.input_exists⟩, passes, fun p derives => ?_⟩
  have other : p ≠ i := by
    rintro rfl
    exact (hierarchy_eq_compatible_iff ..).1 (hierarchy_of_compatibility passes)
      (derives.block h.wired)
  rw [linked, peer?, peer?, socket?_link]
  cases g.socket? p with
  | none => rfl
  | some s => simp [other]

theorem InOrder.suits_of_new (h : g.InOrder) {e : Edit} (checked : e.IsChecked)
    (h' : (e.apply g).InOrder) {c : Connection} (mem : c ∈ (e.apply g).connections)
    (new : c ∉ g.connections) : (e.apply g).Suits c.output c.input := by
  obtain ⟨oriented, passes, quiet⟩ := h.made_of_new checked mem new
  exact (h.wired.sameBlocks_apply checked).suits h h' oriented (h'.wired.oriented mem) quiet
    (suits_of_compatibility passes)

/-- What checked edits can make of the empty graph. -/
abbrev ReachableChecked : Graph → Prop := ReachableBy Edit.Checked

theorem ReachableChecked.inOrder (h : g.ReachableChecked) : g.InOrder :=
  ReachableWith.inOrder (ReachableBy.mono (fun _ _ checked => checked.1) h)

/-- A checked edit that leaves a connection in place, and all that its output's kind comes down
from. -/
def Spares (c : Connection) (g : Graph) (e : Edit) : Prop :=
  e.Checked g ∧ c ∈ (e.apply g).connections ∧
    ∀ p, g.DerivesFrom c.output p → (e.apply g).peer? p = g.peer? p

theorem ReachableChecked.suits_apply (h : g.ReachableChecked) {c : Connection} {e : Edit}
    (mem : c ∈ g.connections) (spares : Spares c g e) (suits : g.Suits c.output c.input) :
    (e.apply g).Suits c.output c.input := by
  have order := ReachableChecked.inOrder h
  have order' := ReachableChecked.inOrder (.edit e h spares.1)
  exact (order.wired.sameBlocks_apply spares.1.2).suits order order' (order.wired.oriented mem)
    (order'.wired.oriented spares.2.1) spares.2.2 suits

theorem ReachableChecked.suits_foldl (h : g.ReachableChecked) {c : Connection}
    (mem : c ∈ g.connections) (suits : g.Suits c.output c.input) (es : List Edit)
    (spared : Edit.InTurn (Spares c) g es) :
    (es.foldl Edit.apply g).Suits c.output c.input := by
  induction es generalizing g with
  | nil => exact suits
  | cons e rest ih =>
    exact ih (.edit e h spared.1.1) spared.1.2.1 (h.suits_apply mem spared.1 suits) spared.2

/-- Connections of outputs that do not derive their kind suit. -/
def OwnKindsSuit (g : Graph) : Prop :=
  ∀ c ∈ g.connections, (∀ n, g.node? c.output.block = some n → ¬ n.block.Derives) →
    g.Suits c.output c.input

theorem ReachableChecked.ownKindsSuit (h : g.ReachableChecked) : g.OwnKindsSuit := by
  refine ReachableBy.invariant ?_ (fun g e reached checked ih => ?_) h
  · intro c mem
    cases mem
  · intro c mem own
    have order := ReachableChecked.inOrder reached
    have order' := ReachableChecked.inOrder (.edit e reached checked)
    by_cases old : c ∈ g.connections
    · have own : ∀ n, g.node? c.output.block = some n → ¬ n.block.Derives := by
        intro n hn
        obtain ⟨n', hn'⟩ := Option.isSome_iff_exists.1 (order'.wired.blocks mem).1
        rw [← order.wired.sameBlocks_apply checked.2 _ n n' hn hn']
        exact own n' hn'
      refine ReachableChecked.suits_apply reached old ⟨checked, mem, fun p derives => ?_⟩ (ih c old own)
      obtain ⟨n, hn, derives⟩ := derives.derives
      exact absurd derives (own n hn)
    · exact order.suits_of_new checked.2 order' mem old

/-- In what checked edits of standard blocks lead to, every connection suits whose output does not
derive its kind from inputs or whose input detects its kind; and every connection that an edit lets
in suits then, and goes on to do so through all further edits that leave it in place and change
nothing of what is connected to the inputs its output's kind comes down from. -/
theorem ReachableChecked.suiting (h : g.ReachableChecked) :
    (∀ c ∈ g.connections, (∀ n, g.node? c.output.block = some n → ¬ n.block.Derives) ∨
        (∃ target, g.socket? c.input = some target ∧ target.spec.kind = .autoDetect) →
      g.Suits c.output c.input) ∧
    ∀ e, Edit.Checked g e → ∀ c ∈ (e.apply g).connections, c ∉ g.connections →
      ∀ es, Edit.InTurn (Spares c) (e.apply g) es →
        (es.foldl Edit.apply (e.apply g)).Suits c.output c.input := by
  constructor
  · rintro c mem (own | ⟨target, ht, detects⟩)
    · exact h.ownKindsSuit c mem own
    · exact ⟨target, ht, .inr (.inl detects)⟩
  · intro e checked c mem new es spared
    have reached : (e.apply g).ReachableChecked := .edit e h checked
    exact reached.suits_foldl mem (h.inOrder.suits_of_new checked.2 reached.inOrder mem new) es spared

def sized : Graph :=
  [.add "sum" (.math .add), .add "box" (.box false), .connect (.output 0 0) (.input 1 0)].foldl
    Edit.apply .empty

def drifted : Graph :=
  [.add "corner" (.input (.ofValue (.vector3 .one))), .connect (.output 2 0) (.input 0 0)].foldl
    Edit.apply sized

theorem reachable_sized : sized.ReachableChecked := by
  refine ReachableBy.foldl .empty _ ⟨⟨⟨?_, trivial⟩, trivial⟩, ⟨⟨?_, trivial⟩, trivial⟩,
    ⟨⟨trivial, trivial⟩, trivial⟩, trivial⟩ <;> decide +kernel

theorem reachable_drifted : drifted.ReachableChecked :=
  ReachableBy.foldl reachable_sized _ ⟨⟨⟨by decide +kernel, trivial⟩, trivial⟩,
    ⟨⟨trivial, trivial⟩, trivial⟩, trivial⟩

/-- The sum turns into a vector, which the box does not take as its size. -/
theorem not_suits_drifted :
    drifted.ReachableChecked ∧ ⟨.output 0 0, .input 1 0⟩ ∈ drifted.connections ∧
      sized.Suits (.output 0 0) (.input 1 0) ∧ ¬ drifted.Suits (.output 0 0) (.input 1 0) := by
  refine ⟨reachable_drifted, by decide +kernel, ⟨_, rfl, .inl (by decide +kernel)⟩, ?_⟩
  rintro ⟨target, ht, rule⟩
  have output : drifted.resolvedKind (.output 0 0) = .vector3 := by decide +kernel
  have input : drifted.resolvedKind (.input 1 0) = .float := by decide +kernel
  rw [output, input] at rule
  cases ht
  rcases rule with same | detects | accepted
  · cases same
  · cases detects
  · cases accepted

/-- In the drifted graph the vector suits the sum; and the sum goes on to suit the box when it is
connected to another box as well. -/
theorem suits_in_drifted :
    drifted.Suits (.output 2 0) (.input 0 0) ∧
      ([.add "other" (.box false), .connect (.output 0 0) (.input 2 0)].foldl Edit.apply
        sized).Suits (.output 0 0) (.input 1 0) := by
  constructor
  · refine (ReachableChecked.suiting reachable_drifted).1 ⟨.output 2 0, .input 0 0⟩
      (by decide +kernel) (.inl fun n hn => ?_)
    cases hn
    exact id
  · have reached : Graph.ReachableChecked ([.add "sum" (.math .add), .add "box" (.box false)].foldl
        Edit.apply .empty) := by
      refine ReachableBy.foldl .empty _ ⟨⟨⟨?_, trivial⟩, trivial⟩, ⟨⟨?_, trivial⟩, trivial⟩,
        trivial⟩ <;> decide +kernel
    refine (ReachableChecked.suiting reached).2 (.connect (.output 0 0) (.input 1 0))
      ⟨⟨trivial, trivial⟩, trivial⟩ ⟨.output 0 0, .input 1 0⟩ (by decide +kernel)
      (by decide +kernel) [.add "other" (.box false), .connect (.output 0 0) (.input 2 0)] ?_
    refine ⟨⟨⟨⟨by decide +kernel, trivial⟩, trivial⟩, by decide +kernel, fun p derives => ?_⟩,
      ⟨⟨⟨trivial, trivial⟩, trivial⟩, by decide +kernel, fun p derives => ?_⟩, trivial⟩
    all_goals
      rw [derives.eq_of_free (by decide +kernel)]
      decide +kernel

end Graph
end MeshFlow
