import MeshFlow.Proofs.Reload
import MeshFlow.Proofs.Yielding

set_option autoImplicit false

/-!
# Values and kinds

What an output yields is null or of the kind that the graph works out for it. The kind is worked
out from sockets alone, without any value, and the value without any kind; the two agree along the
way down from what declares its kind. An input block that has lost its kind while it holds a value
is all that stands in the way.
-/
namespace MeshFlow

namespace Graph
variable {g : Graph}

/-- A value that an output may yield by its kind. -/
def Typed (g : Graph) (p : SocketId) (v : Value) : Prop :=
  v = .null ∨ v.kind? = some (g.resolvedKind p)

/-- What looks a context up has the kind of its source, and random numbers range from what is
connected, from a float or from nothing. -/
structure Settled (g : Graph) : Prop where
  sources : ∀ id n settings source, g.node? id = some n → n.block = .input settings →
    settings.source = some source → settings.kind = source.kind
  lows : ∀ id n lock s, g.node? id = some n → n.block = .random lock → n.inputs[0]? = some s →
    s.peer = none → ∀ v, s.default? = some v → v = .null ∨ v.kind? = some .float

variable {P : Mesh → Prop} {N : Nat → Prop}

theorem Settled.left_kind (settled : g.Settled) (declares : g.Declares Block.IsStandard)
    {id : BlockId} {n : Node} (hn : g.node? id = some n) (complete : n.missingInputs.isEmpty)
    (derives : n.block.Derives) {c : Contexts} {v : Value}
    (known : (Facts.ofValues P N g.Typed).input g (.input id 0) c v) :
    v = .null ∨ v.kind? = some (g.leftKind id) := by
  rcases Facts.input_cases hn known with null | ⟨o, fed, kind⟩ | ⟨s, first, free, unfed, literal⟩
  · exact .inl null
  · rw [leftKind, fed]
    exact kind
  · rw [leftKind, unfed]
    have spec := declares.inputSpec hn first
    cases hb : n.block with
    | math operation =>
      -- An operand that is not connected keeps the block from being built.
      rw [hb] at spec
      have operand : operand "left" "right" = s.spec := Option.some.inj spec
      have fed := Node.peer_of_missingInputs complete (List.mem_of_getElem? first)
        (by rw [← operand]; rfl)
      rw [free] at fed
      cases fed
    | random lock => exact settled.lows id n lock s hn hb first free v literal
    | _ =>
      rw [hb] at derives
      exact derives.elim

theorem resolvedKind_of_input (wired : g.Wired) (acyclic : g.Acyclic)
    (declares : g.Declares Block.IsStandard) {id : BlockId} {n : Node} (hn : g.node? id = some n)
    {settings : InputBlock} (input : n.block = .input settings) :
    g.resolvedKind (.output id 0) = settings.kind := by
  rw [resolvedKind_output wired acyclic declares hn 0, input]
  rfl

theorem Settled.admits (settled : g.Settled) (typed : g.AllTyped) (wired : g.Wired)
    (acyclic : g.Acyclic) (declares : g.Declares Block.Made) {id : BlockId} {n : Node}
    (hn : g.node? id = some n) (complete : n.missingInputs.isEmpty) :
    n.block.Admits ((Facts.ofValues (fun _ => True) N g.Typed).answers g id)
      (fun _ => True) fun i => g.Typed (.output id i) := by
  have standard : g.Declares Block.IsStandard := declares.mono fun b made => made.isStandard
  have kinds := resolvedKind_output wired acyclic standard hn
  constructor
  case declared =>
    rintro i spec hs own v (null | ⟨kind, -⟩)
    · exact .inl null
    · refine .inr ?_
      rw [kinds i, Block.outputKind_of_declared hs own]
      exact kind
  case taken =>
    rintro derives v (null | ⟨c, left, known, same, -⟩)
    · exact .inl null
    · rw [Typed, resolvedKind_derived wired acyclic standard hn derives]
      rcases settled.left_kind standard hn complete derives known with rfl | kind
      · cases v <;> first | exact .inl rfl | cases same
      · exact .inr (same.trans kind)
  case kept => exact fun _ _ => Iff.rfl
  case given =>
    intro settings hb _
    have made := declares.sort id n hn
    have itself := typed id n hn
    rw [hb] at made itself
    rw [Typed, resolvedKind_of_input wired acyclic standard hn hb]
    rcases InputBlock.Made.value_kind made with null | unknown | kind
    · exact .inl null
    · exact .inl (itself unknown)
    · exact .inr kind
  case found =>
    rintro settings source hb hs v (null | ⟨kind, -⟩)
    · exact .inl null
    · refine .inr ?_
      rw [resolvedKind_of_input wired acyclic standard hn hb,
        settled.sources id n settings source hn hb hs]
      exact kind
  case fed => exact fun _ _ _ _ _ v _ _ _ => trivial
  case data => exact fun _ _ _ => trivial

theorem lookup_follow_value (s : Session) (id : BlockId) (v : Value) :
    (s.follow id { outputs := [(0, .value v)] }).stored.lookup (.output id 0)
      = some (.value v) := by
  simp [Session.follow, Session.store]

theorem ends_read_input (declares : g.Declares Block.IsStandard) {id : BlockId} {n : Node}
    (hn : g.node? id = some n) {settings : InputBlock} (input : n.block = .input settings)
    (literal : settings.source = none) (config : BuildConfig) :
    Ends (g.supplier.read (.output id 0)) (.start config) fun v _ => v = settings.value := by
  have inputs : n.inputs = [] := by
    have specs := (declares.specs id n hn).1
    rw [input] at specs
    exact List.map_eq_nil_iff.1 specs
  have plan : n.block.plan id n.name = Block.fixed settings.value := by
    simp only [input, Block.plan, literal]
  have complete : n.missingInputs.isEmpty := by
    rw [Node.missingInputs, inputs]
    rfl
  have peers : n.peers = [] := by
    rw [Node.peers, inputs]
    rfl
  have fresh : (Session.start config).built.contains id = false := rfl
  have owner : (SocketId.output id 0).block = id := rfl
  change Ends (g.readOutputWith (g.supplierWithin g.size) (.output id 0)) _ _
  simp only [readOutputWith, buildBlockWith, buildNode, owner, ends_bind, ends_get, ends_modify,
    fresh, hn, Bool.false_eq_true, if_false, peers, buildAll, ends_pure, complete, if_true,
    ends_keepingContexts, plan, Block.fixed]
  refine (ends_pure ..).2 ?_
  simp only [lookup_follow_value, ends_pure]

/-- In a graph made of standard blocks where input blocks have the kinds of their sources and
random numbers do not range from other literals than floats, whatever is read of any socket at any
moment of any pass, under any contexts, is null or of the kind that the graph works out for the
socket, exactly if no input block holds a value without knowing its kind. -/
theorem ReachableWith.typed_reads_iff (h : g.ReachableWith Block.Made) (settled : g.Settled) :
    (∀ s, g.InPass s → ∀ p, Ends (g.supplier.read p) s fun v _ =>
      v = .null ∨ v.kind? = some (g.resolvedKind p)) ↔ g.AllTyped := by
  have wired := Reachable.wired h.reachable
  have acyclic := Reachable.acyclic h.reachable
  have declares := h.declares fun b made => made.isStandard
  have standard : g.Declares Block.IsStandard := declares.mono fun b made => made.isStandard
  constructor
  · intro reads id n hn
    cases hb : n.block with
    | input settings =>
      intro unknown
      have literal : settings.source = none := by
        cases source : settings.source with
        | none => rfl
        | some s =>
          rw [settled.sources id n settings s hn hb source] at unknown
          cases s <;> cases unknown
      obtain ⟨v, s, run, rfl⟩ := ends_read_input standard hn hb literal {}
      rcases (reads _ (.start {}) (.output id 0)).of_run run with null | known
      · exact null
      · rw [resolvedKind_of_input wired acyclic standard hn hb] at known
        exact absurd unknown (by simp [Value.isMeta_of_kind? known])
    | _ => trivial
  · intro typed s underway p
    have lasting := Facts.lasting_ofValues (R := g.Typed) standard Mesh.closed_trivial
      (fun _ => .inl rfl) fun id n hn complete =>
        settled.admits typed wired acyclic declares hn complete
    exact (underway.read_ends lasting wired acyclic p).mono fun v _ keeps => keeps.2

theorem settled_openInput : openInput.Settled where
  sources id n settings source hn input found := by
    rw [(node?_openInput hn).1] at input
    cases input
    cases found
  lows id n lock s hn random := by
    rw [(node?_openInput hn).1] at random
    cases random

def doubled : Graph :=
  [.add "corner" (.input (.ofValue (.vector3 .one))), .add "sum" (.math .add),
    .connect (.output 0 0) (.input 1 0), .connect (.output 0 0) (.input 1 1)].foldl Edit.apply .empty

theorem reachable_doubled {sort : Block → Prop} (input : sort (.input (.ofValue (.vector3 .one))))
    (sum : sort (.math .add)) : doubled.ReachableWith sort :=
  ReachableBy.foldl .empty _ ⟨⟨by decide +kernel, input⟩, ⟨by decide +kernel, sum⟩,
    ⟨trivial, trivial⟩, ⟨trivial, trivial⟩, trivial⟩

theorem block_doubled {id : BlockId} {n : Node} (hn : doubled.node? id = some n) :
    n.block = .input (.ofValue (.vector3 .one)) ∨ n.block = .math .add := by
  have declares : doubled.Declares fun b =>
      b = .input (.ofValue (.vector3 .one)) ∨ b = .math .add := by
    refine ReachableWith.declares ?_ (reachable_doubled (.inl rfl) (.inr rfl))
    rintro b (rfl | rfl) <;> trivial
  exact declares.sort id n hn

theorem settled_doubled : doubled.Settled where
  sources id n settings source hn hb found := by
    rcases block_doubled hn with input | sum
    · rw [hb] at input
      cases input
      cases found
    · rw [hb] at sum
      cases sum
  lows id n lock s hn hb := by
    rcases block_doubled hn with input | sum
    · rw [hb] at input
      cases input
    · rw [hb] at sum
      cases sum

theorem allTyped_doubled : doubled.AllTyped := by
  intro id n hn
  rcases block_doubled hn with input | sum
  · rw [input]
    rintro ⟨⟩
  · rw [sum]
    trivial

/-- The sum is of the kind of the vector whenever it is read; and what is read of an open input is
not of its kind. -/
theorem typed_reads_doubled :
    (∀ s, doubled.InPass s → ∀ p, Ends (doubled.supplier.read p) s fun v _ =>
      v = .null ∨ v.kind? = some (doubled.resolvedKind p)) ∧
    ¬ ∀ s, openInput.InPass s → ∀ p, Ends (openInput.supplier.read p) s fun v _ =>
      v = .null ∨ v.kind? = some (openInput.resolvedKind p) := by
  have reached : doubled.ReachableWith Block.Made := reachable_doubled (.ofValue _) trivial
  refine ⟨(ReachableWith.typed_reads_iff reached settled_doubled).2 allTyped_doubled, ?_⟩
  intro reads
  have typed := (ReachableWith.typed_reads_iff reachable_openInput settled_openInput).1 reads
  have null := typed 0 _ rfl rfl
  cases null

end Graph
end MeshFlow
