import MeshFlow.Proofs.Sameness
import MeshFlow.Proofs.Standard

set_option autoImplicit false

/-!
# Blocks without their connections

What is saved of a block is the block itself with the names and literals of its sockets. Where two
graphs have the same blocks in this sense, the list of connections decides all the rest.
-/
namespace MeshFlow

/-- The block with its literals and without connections; outputs are as declared. -/
def Node.unwired (n : Node) : Node where
  name := n.name
  block := n.block
  inputs := n.inputs.map fun s => { spec := s.spec, default? := s.default? }
  outputs := n.outputs.map fun s => { spec := s.spec }

namespace Node

/-- A change to a socket that only touches what it is connected to. -/
def Rewires (f : Socket → Socket) : Prop :=
  ∀ s, (f s).spec = s.spec ∧ (f s).default? = s.default?

theorem map_modify {α β : Type} {f : α → α} {g : α → β} (keeps : ∀ a, g (f a) = g a) (xs : List α)
    (i : Nat) : (xs.modify i f).map g = xs.map g := by
  apply List.ext_getElem?
  intro j
  rw [List.getElem?_map, List.getElem?_map, List.getElem?_modify]
  cases xs[j]? with
  | none => rfl
  | some a => by_cases here : i = j <;> simp [here, keeps]

theorem map_pair_congr {α β γ : Type} {f : α → β} {g : α → Option γ} {xs xs' : List α}
    (first : xs'.map f = xs.map f) (second : ∀ i : Nat, xs'[i]?.bind g = xs[i]?.bind g) :
    xs'.map (fun a => (f a, g a)) = xs.map fun a => (f a, g a) := by
  apply List.ext_getElem?
  intro i
  have left := congrArg (·[i]?) first
  have right := second i
  simp only [List.getElem?_map] at left
  rw [List.getElem?_map, List.getElem?_map]
  cases ha : xs[i]? with
  | none => simpa [ha] using left
  | some a =>
    rw [ha, Option.map_some, Option.map_eq_some_iff] at left
    obtain ⟨a', ha', left⟩ := left
    rw [ha, ha', Option.bind_some, Option.bind_some] at right
    rw [ha', Option.map_some, Option.map_some, left, right]

theorem unwired_modifySocket (n : Node) (side : Side) (index : Nat) {f : Socket → Socket}
    (rewires : Rewires f) : (n.modifySocket side index f).unwired = n.unwired := by
  have inputs := map_modify (f := f) (g := fun s => ({ spec := s.spec, default? := s.default? } :
    Socket)) (fun s => by rw [(rewires s).1, (rewires s).2]) n.inputs index
  have outputs := map_modify (f := f) (g := fun s => ({ spec := s.spec } : Socket))
    (fun s => by rw [(rewires s).1]) n.outputs index
  cases side with
  | input => simp only [modifySocket, unwired, inputs]
  | output => simp only [modifySocket, unwired, outputs]

theorem specs_unwired (n : Node) (side : Side) :
    (n.unwired.sockets side).map (·.spec) = (n.sockets side).map (·.spec) := by
  cases side <;> simp [unwired, sockets, Function.comp_def]

theorem specs_of_unwired {n n' : Node} (same : n'.unwired = n.unwired) (side : Side) :
    (n'.sockets side).map (·.spec) = (n.sockets side).map (·.spec) := by
  rw [← specs_unwired n', ← specs_unwired n, same]

theorem spec?_of_unwired {n n' : Node} (same : n'.unwired = n.unwired) (side : Side) (index : Nat) :
    (n'.socket? side index).map (·.spec) = (n.socket? side index).map (·.spec) := by
  rw [socket?, socket?, ← List.getElem?_map, ← List.getElem?_map, specs_of_unwired same]

end Node

namespace Graph

def Unwires (g g' : Graph) : Prop :=
  ∀ id, (g'.node? id).map Node.unwired = (g.node? id).map Node.unwired

variable {g g' : Graph}

theorem Unwires.hasBlock (h : g.Unwires g') (id : BlockId) : g'.hasBlock id = g.hasBlock id := by
  have same := congrArg Option.isSome (h id)
  rwa [Option.isSome_map, Option.isSome_map] at same

theorem Unwires.node? (h : g.Unwires g') {id : BlockId} {n : Node} (hn : g.node? id = some n) :
    ∃ n', g'.node? id = some n' ∧ n'.unwired = n.unwired := by
  have same := h id
  rw [hn, Option.map_some, Option.map_eq_some_iff] at same
  exact same

theorem Linked.like_node (h : g.Linked) (h' : g'.Linked) (peers : ∀ p, g'.peer? p = g.peer? p)
    {id : BlockId} {n n' : Node} (hn : g.node? id = some n) (hn' : g'.node? id = some n')
    (same : n'.unwired = n.unwired) : n.Like n' := by
  have name : n'.unwired.name = n.unwired.name := by rw [same]
  have block : n'.unwired.block = n.unwired.block := by rw [same]
  refine ⟨name, block, h.inputs_eq h' hn hn' ?_, Node.specs_of_unwired same .output⟩
  have pairs := Node.map_pair_congr (g := Socket.peer) (congrArg Node.inputs same) fun index => by
    have fed := peers (.input id index)
    rwa [peer?, peer?, socket?_of_node? (p := .input id index) hn,
      socket?_of_node? (p := .input id index) hn'] at fed
  have triples := congrArg (List.map fun x => (x.1.spec, x.1.default?, x.2)) pairs
  rw [List.map_map, List.map_map] at triples
  exact triples

theorem Linked.same_node (h : g.Linked) (h' : g'.Linked)
    (connections : g'.connections = g.connections) {id : BlockId} {n n' : Node}
    (hn : g.node? id = some n) (hn' : g'.node? id = some n') (same : n'.unwired = n.unwired) :
    n.Same n' := by
  have peers : ∀ p, g'.peer? p = g.peer? p := fun p => by
    rw [h'.peer?_eq, h.peer?_eq, connections]
  obtain ⟨name, block, inputs, -⟩ := h.like_node h' peers hn hn' same
  refine ⟨name, block, inputs, ?_⟩
  have specs := congrArg Node.outputs same
  apply List.ext_getElem?
  intro index
  have here := congrArg (·[index]?) specs
  simp only [Node.unwired, List.getElem?_map] at here
  rw [List.getElem?_map, List.getElem?_map]
  cases hs : n.outputs[index]? with
  | none => simpa [hs] using here
  | some s =>
    rw [hs, Option.map_some, Option.map_eq_some_iff] at here
    obtain ⟨s', hs', eq⟩ := here
    have endpoints : s'.endpoints = s.endpoints := by
      rw [h.endpoints_eq (.output id index) s ((socket?_of_node? hn).trans hs),
        h'.endpoints_eq (.output id index) s' ((socket?_of_node? hn').trans hs'), connections]
    rw [hs', Option.map_some, Option.map_some, endpoints, congrArg Socket.spec eq]

theorem forall₂_of_lookup {R : Node → Node → Prop} {nodes : List (BlockId × Node)}
    (sorted : nodes.Pairwise fun a b => a.1 < b.1) :
    ∀ {nodes' : List (BlockId × Node)}, nodes'.Pairwise (fun a b => a.1 < b.1) →
      (∀ id, Option.Rel R (nodes.lookup id) (nodes'.lookup id)) →
      List.Forall₂ (fun a b => b.1 = a.1 ∧ R a.2 b.2) nodes nodes' := by
  have above : ∀ {id : BlockId} {rest : List (BlockId × Node)}, (∀ entry ∈ rest, id < entry.1) →
      rest.lookup id = none := fun first =>
    lookup_eq_none fun entry mem => (UInt32.ne_of_lt (first entry mem)).symm
  induction sorted with
  | nil =>
    intro nodes' _ alike
    cases nodes' with
    | nil => exact .nil
    | cons entry rest =>
      have here := alike entry.1
      rw [lookup_cons_ite, if_pos rfl] at here
      cases here
  | @cons entry rest first _ ih =>
    obtain ⟨j, n⟩ := entry
    intro nodes' sorted' alike
    cases sorted' with
    | nil =>
      have here := alike j
      rw [lookup_cons_ite, if_pos rfl] at here
      cases here
    | @cons entry' rest' first' others' =>
      obtain ⟨j', n'⟩ := entry'
      have here := alike j
      have here' := alike j'
      rw [lookup_cons_ite, lookup_cons_ite, if_pos rfl] at here
      rw [lookup_cons_ite, lookup_cons_ite, if_pos rfl] at here'
      have same : j' = j := by
        by_contra different
        rw [if_neg fun same => different same.symm] at here
        rw [if_neg different] at here'
        rcases UInt32.lt_or_lt_of_ne different with below | below
        · rw [above fun entry mem => UInt32.lt_trans below (first entry mem)] at here'
          cases here'
        · rw [above fun entry mem => UInt32.lt_trans below (first' entry mem)] at here
          cases here
      subst same
      rw [if_pos rfl] at here
      cases here with
      | some related =>
        refine .cons ⟨rfl, related⟩ (ih others' fun id => ?_)
        by_cases head : id = j'
        · rw [head, above first, above first']
          exact .none
        · have later := alike id
          rwa [lookup_cons_ite, lookup_cons_ite, if_neg head, if_neg head] at later

theorem Linked.same (h : g.Linked) (h' : g'.Linked)
    (sorted : g.nodes.Pairwise fun a b => a.1 < b.1)
    (sorted' : g'.nodes.Pairwise fun a b => a.1 < b.1) (unwires : g.Unwires g')
    (connections : g'.connections = g.connections) (output : g'.output = g.output) :
    g.Same g' where
  nodes := by
    apply forall₂_of_lookup sorted sorted'
    intro id
    change Option.Rel _ (g.node? id) (g'.node? id)
    cases hn : g.node? id with
    | none =>
      have none := unwires id
      rw [hn, Option.map_none, Option.map_eq_none_iff] at none
      rw [none]
      exact .none
    | some n =>
      obtain ⟨n', hn', same⟩ := unwires.node? hn
      rw [hn']
      exact .some (h.same_node h' connections hn hn' same)
  connections := connections
  output := output

theorem Unwires.namedSocket_eq (h : g.Unwires g') (block : BlockId) (side : Side) (name : String) :
    g'.namedSocket block side name = g.namedSocket block side name := by
  have byName : ∀ (n : Node), n.find? side name
      = ((n.sockets side).map (·.spec)).findIdx? (·.name == name) := by
    intro n
    rw [Node.find?, List.findIdx?_map]
    rfl
  rw [namedSocket, namedSocket, requireNode, requireNode]
  have same := h block
  cases hn : g.node? block with
  | none =>
    rw [hn, Option.map_none, Option.map_eq_none_iff] at same
    rw [same]
  | some n =>
    obtain ⟨n', hn', same⟩ := h.node? hn
    simp only [hn', bind, Except.bind, byName, Node.specs_of_unwired same]

theorem findIdx?_of_nodup {α β : Type} [DecidableEq β] (key : α → β) {xs : List α}
    (distinct : (xs.map key).Nodup) {i : Nat} {x : α} (hx : xs[i]? = some x) :
    xs.findIdx? (fun y => key y == key x) = some i := by
  obtain ⟨lt, rfl⟩ := List.getElem?_eq_some_iff.1 hx
  rw [List.findIdx?_eq_some_iff_getElem]
  refine ⟨lt, by simp, fun j below => ?_⟩
  have different : key xs[j] ≠ key xs[i] := by
    have := List.nodup_iff_injective_getElem.1 distinct
    intro same
    have eq := @this ⟨j, by simp; omega⟩ ⟨i, by simpa using lt⟩ (by simpa using same)
    exact absurd (Fin.mk.inj eq) (by omega)
  simpa using different

theorem namedSocket_of_nodup {id : BlockId} {n : Node} (hn : g.node? id = some n) {side : Side}
    (distinct : ((n.sockets side).map (·.spec.name)).Nodup) {index : Nat}
    {s : MeshFlow.Socket} (hs : n.socket? side index = some s) :
    g.namedSocket id side s.spec.name = .ok ⟨id, side, index⟩ := by
  have found : n.find? side s.spec.name = some index :=
    findIdx?_of_nodup (fun s : MeshFlow.Socket => s.spec.name) distinct hs
  rw [namedSocket, (requireNode_eq_ok_iff ..).2 hn]
  simp only [bind, Except.bind, found]

end Graph

theorem Block.nodup_names_standard :
    ∀ b ∈ Block.standard, (b.inputSpecs.map (·.name)).Nodup ∧ (b.outputSpecs.map (·.name)).Nodup := by
  decide +kernel

theorem Block.nodup_names {b : Block} (h : b.IsStandard) :
    (b.inputSpecs.map (·.name)).Nodup ∧ (b.outputSpecs.map (·.name)).Nodup := by
  have usual := nodup_names_standard _ (usual_mem h)
  simp only [inputSpecs, outputSpecs, sockets_usual] at usual ⊢
  exact usual

theorem Graph.Declares.nodup_names {sort : Block → Prop} (standard : ∀ b, sort b → b.IsStandard)
    {g : Graph} (h : g.Declares sort) {id : BlockId} {n : Node} (hn : g.node? id = some n)
    (side : Side) : ((n.sockets side).map (·.spec.name)).Nodup := by
  obtain ⟨inputs, outputs⟩ := h.specs id n hn
  obtain ⟨inputNames, outputNames⟩ := Block.nodup_names (standard _ (h.sort id n hn))
  have byName : (n.sockets side).map (·.spec.name)
      = ((n.sockets side).map (·.spec)).map (·.name) := by
    rw [List.map_map]
    rfl
  rw [byName]
  cases side with
  | input => rwa [Node.sockets, inputs]
  | output => rwa [Node.sockets, outputs]

end MeshFlow
