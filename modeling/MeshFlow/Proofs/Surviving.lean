import MeshFlow.Proofs.Reload

set_option autoImplicit false

/-!
# Literals that a build adapts

A build adapts the literal of an input to the kind that the input declares; loading reads what was
written by that kind and adapts nothing. The two agree where the literal is of the declared kind,
and between integers and floats. A scalar on the input of a vector, and a vector of another length,
are adapted by a build and refused by loading.
-/
namespace MeshFlow

def Kind.IsScalar (k : Kind) : Prop := k = .int ∨ k = .float

theorem Kind.eq_of_components? {k own : Kind} (vector : k.isVector = true)
    (same : k.components? = own.components?) : own = k := by
  cases k <;> cases own <;> simp [isVector, components?] at vector same ⊢

namespace Value

/-- The literal is written in a way that the kind reads: it is of that kind, or both are scalars. -/
def ReadAs (v : Value) (k : Kind) : Prop :=
  ∃ own, v.kind? = some own ∧ (own = k ∨ own.IsScalar ∧ k.IsScalar)

variable {v w : Value} {k : Kind}

theorem coerce?_own (kind : v.kind? = some k) : v.coerce? k = some v := by
  cases v <;> cases kind <;> rfl

theorem coerce?_of_isMeta (unknown : k.isMeta = true) (written : v.IsWritten) :
    v.coerce? k = some v := by
  cases v <;> first | exact written.elim | simp [coerce?, unknown]

theorem coerce?_again (written : v.IsWritten) (coerced : v.coerce? k = some w) :
    w.coerce? k = some w := by
  rcases kind?_of_coerce? coerced with unknown | kind
  · rw [coerce?_of_isMeta unknown written] at coerced
    cases coerced
    exact coerce?_of_isMeta unknown written
  · exact coerce?_own kind

theorem ofJson?_float_ofInt (i : Int32) :
    ofJson? .float (toJson (int i)) = some (float (Number.ofInt i.toInt)) := by
  have short : i.toInt.natAbs < 2 ^ 53 := by
    have := i.toInt_lt
    have := i.le_toInt
    omega
  have numbers : jsonNumbers? (toJson (int i)) = some [Number.ofInt i.toInt] := by
    rw [toJson, Json.ofInt, jsonNumbers?, Json.Number.toFloat, Number.narrow_wideOfInt short]
  rw [ofJson?, numbers]
  rfl

theorem ofJson?_int_ofFloat {x : Float32} (finite : x.isFinite = true) :
    ofJson? .int (toJson (float x)) = some (int (Number.toInt32 x)) := by
  have numbers := jsonNumbers?_ofFloat32 finite
  rw [toJson, ofJson?, numbers, Json.ofFloat32_of_finite finite]
  rfl

theorem ofJson?_of_readAs (written : v.IsWritten) (finite : AllFinite v.floats)
    (coerced : v.coerce? k = some w) (readAs : v.ReadAs k) : ofJson? k v.toJson = some w := by
  obtain ⟨own, kind, same | ⟨scalar, wanted⟩⟩ := readAs
  · subst same
    rw [coerce?_own kind] at coerced
    rw [ofJson?_toJson kind written finite, coerced]
  · cases v with
    | int i =>
      rcases wanted with rfl | rfl
      · cases coerced
        exact ofJson?_toJson rfl written finite
      · cases coerced
        exact ofJson?_float_ofInt i
    | float x =>
      rcases wanted with rfl | rfl
      · cases coerced
        exact ofJson?_int_ofFloat (finite x (List.mem_singleton_self x))
      · cases coerced
        exact ofJson?_toJson rfl written finite
    | null => exact written.elim
    | _ => cases kind; rcases scalar with scalar | scalar <;> cases scalar

theorem ofJson?_vector {xs : List Float32} {j : Json} (notNull : j.isNull = false)
    (numbers : jsonNumbers? j = some xs) (vector : k.isVector = true)
    (length : k.components? ≠ some xs.length) : ofJson? k j = none := by
  rw [ofJson?, notNull, numbers]
  cases k with
  | vector2 | vector3 | vector4 => exact if_neg length
  | _ => cases vector

/-- What builds adapt beyond what loading reads: scalars and vectors, to vectors of another kind. -/
theorem isVector_of_not_readAs (written : v.IsWritten) (concrete : k.isMeta = false)
    (coerced : v.coerce? k = some w) (not : ¬ v.ReadAs k) : k.isVector = true := by
  have other : v.kind? ≠ some k := fun kind => not ⟨k, kind, .inl rfl⟩
  cases v with
  | null | geometry _ => exact written.elim
  | matrix m =>
    cases k with
    | matrix => exact absurd rfl other
    | autoDetect | basedOnInput => cases concrete
    | _ => cases coerced
  | int _ | float _ =>
    cases k with
    | int | float =>
      exact absurd ⟨_, rfl, .inr ⟨by simp [Kind.IsScalar], by simp [Kind.IsScalar]⟩⟩ not
    | vector2 | vector3 | vector4 => rfl
    | autoDetect | basedOnInput => cases concrete
    | _ => cases coerced
  | vector2 _ | vector3 _ | vector4 _ =>
    cases k with
    | vector2 | vector3 | vector4 => rfl
    | autoDetect | basedOnInput => cases concrete
    | _ => cases coerced

theorem ofJson?_of_not_readAs (written : v.IsWritten) (finite : AllFinite v.floats)
    (concrete : k.isMeta = false) (coerced : v.coerce? k = some w) (not : ¬ v.ReadAs k) :
    ofJson? k v.toJson = none := by
  have notNull := isNull_toJson written finite
  have vector := isVector_of_not_readAs written concrete coerced not
  have unlike : ∀ own : Kind, v.kind? = some own → k.components? ≠ own.components? :=
    fun own kind same => not ⟨own, kind, .inl (Kind.eq_of_components? vector same)⟩
  cases v with
  | null | geometry _ => exact written.elim
  | matrix _ => cases k <;> cases coerced <;> cases vector
  | int i => exact ofJson?_vector notNull rfl vector (unlike .int rfl)
  | float x =>
    have numbers := jsonNumbers?_ofFloat32 (finite x (List.mem_singleton_self x))
    exact ofJson?_vector notNull numbers vector (unlike .float rfl)
  | vector2 u | vector3 u | vector4 u =>
    exact ofJson?_vector notNull (jsonNumbers?_numbersToJson u.toList finite) vector
      (unlike _ rfl)

theorem literal?_of_readAs (written : v.IsWritten) (finite : AllFinite v.floats)
    (coerced : v.coerce? k = some w) (readAs : k.isMeta = false → v.ReadAs k) :
    literal? k v.toJson = some w := by
  by_cases unknown : k.isMeta = true
  · rw [coerce?_of_isMeta unknown written] at coerced
    rw [literal?_toJson ⟨written, fun concrete => by simp [unknown] at concrete⟩ finite, coerced]
  · rw [literal?, if_neg unknown]
    exact ofJson?_of_readAs written finite coerced (readAs (by simpa using unknown))

end Value

namespace Socket

/-- The input with its literal as a build adapts it. -/
def adapted (s : Socket) : Socket :=
  { s with default? := s.default?.bind (·.coerce? s.spec.kind) }

/-- An input has a literal that a build can use, or was declared without one. -/
def Usable (s : Socket) : Prop :=
  (s.default? = none → s.spec.default? = none) ∧ ∀ v, s.default? = some v →
    AllFinite v.floats ∧ v.IsWritten ∧ (v.coerce? s.spec.kind).isSome

/-- The literal is read by the kind that the input declares, where that is known. -/
def ReadsBack (s : Socket) : Prop :=
  ∀ v, s.default? = some v → s.spec.kind.isMeta = false → v.ReadAs s.spec.kind

/-- How a literal is refused. -/
def refusal (id : BlockId) (s : Socket) (v : Value) : LoadError :=
  .invalidProperty id s.spec.name s!"{v.toJson.compact} is not a {s.spec.kind.name} literal"

variable {s : Socket}

theorem Usable.reread (h : s.Usable) (reads : s.ReadsBack) (id : BlockId) :
    s.reread id = .ok s.adapted := by
  obtain ⟨declared, usable⟩ := h
  rw [Socket.reread, adapted]
  cases literal : s.default? with
  | none =>
    have value : s.save.value = none := by rw [Socket.save, literal]; rfl
    rw [value, declared literal]
    rfl
  | some v =>
    obtain ⟨finite, written, coerced⟩ := usable v literal
    obtain ⟨w, coerced⟩ := Option.isSome_iff_exists.1 coerced
    rw [value_save literal written finite, Option.bind_some, coerced]
    simp only [Value.literal?_of_readAs written finite coerced (reads v literal)]

theorem Usable.reread_error (h : s.Usable) (not : ¬ s.ReadsBack) (id : BlockId) :
    ∃ v, s.default? = some v ∧ s.spec.kind.isMeta = false ∧ ¬ v.ReadAs s.spec.kind ∧
      s.reread id = .error (s.refusal id v) := by
  simp only [ReadsBack, not_forall] at not
  obtain ⟨v, literal, concrete, not⟩ := not
  obtain ⟨finite, written, coerced⟩ := h.2 v literal
  obtain ⟨w, coerced⟩ := Option.isSome_iff_exists.1 coerced
  refine ⟨v, literal, concrete, not, ?_⟩
  rw [Socket.reread, value_save literal written finite]
  simp only [Value.literal?, concrete, Bool.false_eq_true, if_false,
    Value.ofJson?_of_not_readAs written finite concrete coerced not]
  rfl

end Socket

namespace Node

def adapted (n : Node) : Node := { n with inputs := n.inputs.map Socket.adapted }

/-- A block whose settings come back and whose literals a build can use. -/
structure Usable (n : Node) : Prop where
  made : n.block.Made
  finite : AllFinite n.block.floats
  noGeometry : n.block.HoldsNoGeometry
  typed : n.block.IsTyped
  literals : ∀ s ∈ n.inputs, s.Usable

def ReadsBack (n : Node) : Prop := ∀ s ∈ n.inputs, s.ReadsBack

variable {n : Node}

theorem Usable.reread (h : n.Usable) (reads : n.ReadsBack) (id : BlockId) :
    n.reread id = .ok n.adapted := by
  rw [Node.reread_eq_ok_iff h.made.isStandard]
  refine ⟨n.block, n.inputs.map Socket.adapted, ?_, ?_, rfl⟩
  · exact Block.usual_withProperties h.made h.finite h.noGeometry h.typed
  · exact List.forall₂_map_right_iff.2
      (List.forall₂_same.2 fun s mem => (h.literals s mem).reread (reads s mem) id)

theorem Usable.reread_error (h : n.Usable) (not : ¬ n.ReadsBack) (id : BlockId) :
    ∃ s ∈ n.inputs, ∃ v, s.default? = some v ∧ s.spec.kind.isMeta = false ∧
      ¬ v.ReadAs s.spec.kind ∧ n.reread id = .error (s.refusal id v) := by
  obtain ⟨s, mem, not, failure⟩ := exists_first_failure (f := Socket.reread id)
    (fun s mem reads => ⟨_, (h.literals s mem).reread reads id⟩) not
  obtain ⟨v, literal, concrete, not, failed⟩ := (h.literals s mem).reread_error not id
  refine ⟨s, mem, v, literal, concrete, not, ?_⟩
  rw [Node.reread, Registry.create_standard h.made.isStandard,
    Block.usual_withProperties h.made h.finite h.noGeometry h.typed]
  change Except.bind (n.inputs.mapM _) _ = _
  rw [failure _ failed]
  rfl

end Node

namespace Graph

/-- The graph with all literals as builds adapt them. -/
def adapted (g : Graph) : Graph := { g with nodes := g.nodes.map fun e => (e.1, e.2.adapted) }

/-- All literals can be used by builds, and all else that is saved comes back. -/
structure Usable (g : Graph) : Prop where
  finite : ∀ id n, g.node? id = some n → AllFinite n.block.floats
  noGeometry : ∀ id n, g.node? id = some n → n.block.HoldsNoGeometry
  typed : g.AllTyped
  literals : ∀ id n, g.node? id = some n → ∀ s ∈ n.inputs, ∀ v, s.default? = some v →
    AllFinite v.floats ∧ v.IsWritten ∧ (v.coerce? s.spec.kind).isSome

def ReadsBack (g : Graph) : Prop := ∀ id n, g.node? id = some n → n.ReadsBack

variable {g g' : Graph}

theorem ReachableWith.usable (h : g.ReachableWith Block.Made) (usable : g.Usable) {id : BlockId}
    {n : Node} (hn : g.node? id = some n) : n.Usable := by
  have declares := h.declares fun b made => made.isStandard
  refine ⟨declares.sort id n hn, usable.finite id n hn, usable.noGeometry id n hn,
    usable.typed id n hn, fun s hs => ?_⟩
  obtain ⟨index, found⟩ := List.mem_iff_getElem?.1 hs
  exact ⟨ReachableBy.keepsLiterals h id n hn .input index s found, usable.literals id n hn s hs⟩

theorem ReachableWith.load_adapted (h : g.ReachableWith Block.Made) (usable : g.Usable)
    (reads : g.ReadsBack) : ∃ g', load .standard g.save = .ok g' ∧ g.adapted.Same g' := by
  have coherent := ReachableWith.coherent h
  refine coherent.load_save.of_ok ((reread_eq_ok_iff ..).2 ⟨_, ?_, rfl⟩)
  refine List.forall₂_map_right_iff.2 (List.forall₂_same.2 fun entry mem => ⟨rfl, ?_⟩)
  have hn := coherent.node?_of_mem mem
  exact (h.usable usable hn).reread (reads _ _ hn) _

theorem ReachableWith.load_unread (h : g.ReachableWith Block.Made) (usable : g.Usable)
    (not : ¬ g.ReadsBack) :
    ∃ id n s v, g.node? id = some n ∧ s ∈ n.inputs ∧ s.default? = some v ∧
      s.spec.kind.isMeta = false ∧ ¬ v.ReadAs s.spec.kind ∧
      load .standard g.save = .error (s.refusal id v) := by
  have done : ∀ id n, g.node? id = some n → n.ReadsBack → ∃ n', n.reread id = .ok n' :=
    fun id n hn reads => ⟨_, (h.usable usable hn).reread reads id⟩
  obtain ⟨id, n, hn, not, failure⟩ := (ReachableWith.coherent h).load_first_error done not
  obtain ⟨s, hs, v, literal, concrete, not, failed⟩ := (h.usable usable hn).reread_error not id
  exact ⟨id, n, s, v, hn, hs, literal, concrete, not, failure _ failed⟩

theorem Same.input? (h : g.adapted.Same g') {p : SocketId} (side : p.side = .input)
    {s : MeshFlow.Socket} (hs : g.socket? p = some s) : g'.socket? p = some s.adapted := by
  obtain ⟨n, hn, here⟩ := node?_of_socket? hs
  have node := h.node? p.block
  have adapted : g.adapted.node? p.block = some n.adapted := by
    rw [Graph.node?, Graph.adapted, lookup_map_values]
    exact congrArg _ hn
  rw [adapted] at node
  generalize hn' : g'.node? p.block = found at node
  cases node with
  | some same =>
    rw [socket?_of_node? hn', Node.socket?, side, Node.sockets, same.inputs]
    rw [Node.socket?, side, Node.sockets] at here
    simp [Node.adapted, here]

/-- Where builds can use all literals, a saved graph loads just when each literal on an input of a
concrete kind is of that kind or both are scalars. It then has the literals that builds adapt them
to, and is otherwise the same; else such a literal is refused. -/
theorem ReachableWith.survive_iff (h : g.ReachableWith Block.Made) (usable : g.Usable) :
    ((∃ g', load .standard g.save = .ok g' ∧ g.adapted.Same g' ∧
      ∀ p s v, p.side = .input → g.socket? p = some s → s.default? = some v →
        ∃ s' w, g'.socket? p = some s' ∧ s'.default? = some w ∧
          v.coerce? s.spec.kind = some w ∧ w.coerce? s.spec.kind = some w) ↔ g.ReadsBack) ∧
    (¬ g.ReadsBack → ∃ id n s v, g.node? id = some n ∧ s ∈ n.inputs ∧ s.default? = some v ∧
      s.spec.kind.isMeta = false ∧ ¬ v.ReadAs s.spec.kind ∧
      load .standard g.save = .error (s.refusal id v)) := by
  refine ⟨⟨?_, fun reads => ?_⟩, h.load_unread usable⟩
  · rintro ⟨g', loaded, -⟩
    by_contra not
    obtain ⟨_, _, _, _, _, _, _, _, _, refused⟩ := h.load_unread usable not
    rw [loaded] at refused
    cases refused
  · obtain ⟨g', loaded, same⟩ := h.load_adapted usable reads
    refine ⟨g', loaded, same, fun p s v side hs literal => ?_⟩
    obtain ⟨n, hn, here⟩ := node?_of_socket? hs
    rw [Node.socket?, side] at here
    obtain ⟨-, written, coerced⟩ :=
      usable.literals _ n hn s (List.mem_of_getElem? here) v literal
    obtain ⟨w, coerced⟩ := Option.isSome_iff_exists.1 coerced
    refine ⟨s.adapted, w, same.input? side hs, ?_, coerced, Value.coerce?_again written coerced⟩
    rw [MeshFlow.Socket.adapted, literal, Option.bind_some, coerced]

def turned : Graph :=
  [.add "turn" (.rotation .x), .setDefault (.input 0 0) (.int 3)].foldl Edit.apply .empty

theorem reachable_turned : turned.ReachableWith Block.Made :=
  ReachableBy.foldl .empty _ ⟨⟨by decide, trivial⟩, ⟨trivial, trivial⟩, trivial⟩

theorem node?_turned {id : BlockId} {n : Node} (hn : turned.node? id = some n) :
    n.block = .rotation .x ∧ ∀ s ∈ n.inputs, ∀ v, s.default? = some v →
      v = .int 3 ∧ s.spec.kind = .float := by
  have nodes : turned.nodes = [(0, { Node.ofBlock "turn" (.rotation .x) with
    inputs := [{ spec := floatInput "angle" 0, default? := some (.int 3) }] })] := rfl
  rw [Graph.node?, nodes, lookup_cons_ite] at hn
  split at hn
  · cases hn
    refine ⟨rfl, fun s hs v literal => ?_⟩
    cases List.mem_singleton.1 hs
    cases literal
    exact ⟨rfl, rfl⟩
  · cases hn

theorem usable_turned : turned.Usable where
  finite id n hn := by
    rw [(node?_turned hn).1]
    intro x hx
    cases hx
  noGeometry id n hn := by
    rw [(node?_turned hn).1]
    trivial
  typed id n hn := by
    rw [(node?_turned hn).1]
    trivial
  literals id n hn s hs v literal := by
    obtain ⟨rfl, kind⟩ := (node?_turned hn).2 s hs v literal
    rw [kind]
    refine ⟨fun x hx => ?_, trivial, rfl⟩
    cases hx

theorem survives_turned : ∃ g' s', load .standard turned.save = .ok g' ∧
    g'.socket? (.input 0 0) = some s' ∧ s'.default? = some (.float (Number.ofInt 3)) := by
  have reads : turned.ReadsBack := by
    intro id n hn s hs v literal _
    obtain ⟨rfl, kind⟩ := (node?_turned hn).2 s hs v literal
    rw [kind]
    exact ⟨.int, rfl, .inr ⟨.inl rfl, .inr rfl⟩⟩
  obtain ⟨survives, -⟩ := ReachableWith.survive_iff reachable_turned usable_turned
  obtain ⟨g', loaded, -, literals⟩ := survives.2 reads
  obtain ⟨s', w, hs', literal, coerced, -⟩ := literals (.input 0 0) _ _ rfl rfl rfl
  cases coerced
  exact ⟨g', s', loaded, hs', literal⟩

def spread : Graph :=
  [.add "move" .shift, .setDefault (.input 0 0) (.int 2)].foldl Edit.apply .empty

theorem lost_spread :
    spread.ReachableWith Block.Made ∧
    (spread.socket? (.input 0 0)).map (fun s => (s.spec.kind, s.default?))
      = some (.vector3, some (.int 2)) ∧
    ((Value.int 2).coerce? .vector3).isSome ∧
    load .standard spread.save
      = .error (.invalidProperty 0 "translation" "2 is not a Vector3 literal") :=
  ⟨ReachableBy.foldl .empty _ ⟨⟨by decide, trivial⟩, ⟨trivial, trivial⟩, trivial⟩, rfl, rfl, by rfl⟩

end Graph
end MeshFlow
