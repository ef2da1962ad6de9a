import MeshFlow.Proofs.Kinds
import MeshFlow.Proofs.Loaded
import MeshFlow.Proofs.Rereading

set_option autoImplicit false

/-!
# Outlines of graphs

Whether a saved graph loads does not depend on the settings of its blocks once the blocks can be
made, nor on its literals once they can be read. So loading is followed on outlines, which are
graphs without settings and literals: each stage leads from the outline of a graph to the outline of
what becomes of it, and fails where the stage itself fails, with the same error.
-/
namespace MeshFlow

section
variable {ε ε' α β σ τ : Type}

theorem map_bind_except (f : β → τ) (x : Except ε α) (next : α → Except ε β) :
    (x >>= next).map f = x >>= fun a => (next a).map f := by
  cases x <;> rfl

theorem bind_map_except (f : α → β) (x : Except ε α) (next : β → Except ε τ) :
    x.map f >>= next = x >>= fun a => next (f a) := by
  cases x <;> rfl

theorem bind_congr_of_ok {x : Except ε α} {next next' : α → Except ε β}
    (same : ∀ a, x = .ok a → next a = next' a) : x >>= next = x >>= next' := by
  cases x with
  | error e => rfl
  | ok a => exact same a rfl

theorem map_mapError (f : α → β) (h : ε → ε') (x : Except ε α) :
    (x.mapError h).map f = (x.map f).mapError h := by
  cases x <;> rfl

theorem map_foldlM {f : σ → τ} {step : σ → α → Except ε σ} {step' : τ → α → Except ε τ}
    (commutes : ∀ s x, (step s x).map f = step' (f s) x) (xs : List α) (s : σ) :
    (xs.foldlM step s).map f = xs.foldlM step' (f s) := by
  induction xs generalizing s with
  | nil => rfl
  | cons x rest ih =>
    rw [List.foldlM_cons, List.foldlM_cons, ← commutes, map_bind_except, bind_map_except]
    simp only [ih]

theorem exists_ok_map_iff (f : α → β) (x : Except ε α) :
    (∃ b, x.map f = .ok b) ↔ ∃ a, x = .ok a := by
  cases x <;> simp [Except.map]

theorem map_eq_error_iff (f : α → β) (x : Except ε α) (e : ε) :
    x.map f = .error e ↔ x = .error e := by
  cases x <;> simp [Except.map]

end

theorem Block.usual_usual (b : Block) : b.usual.usual = b.usual := by
  cases b <;> rfl

/-- The usual settings of whatever is made by the name of a class are the model of the class. -/
theorem Block.usual_of_create {b made : Block} (standard : b ∈ Block.standard) {j : Json}
    (created : Registry.standard.create b.className j = .ok made) : made.usual = b := by
  obtain ⟨isStandard, usual⟩ := usual_of_mem b standard
  rw [Registry.create_standard isStandard, mapError_eq_ok_iff] at created
  obtain ⟨madeStandard, className⟩ := of_withProperties isStandard created
  rw [usual_eq_of_className madeStandard isStandard className, usual]

/-- The socket without its literal. -/
def Socket.outline (s : Socket) : Socket := { s with default? := none }

/-- The block with its usual settings and without literals. -/
def Node.outline (n : Node) : Node where
  name := n.name
  block := n.block.usual
  inputs := n.inputs.map Socket.outline
  outputs := n.outputs.map Socket.outline

def Graph.outline (g : Graph) : Graph :=
  { g with nodes := g.nodes.map fun e => (e.1, e.2.outline) }

namespace Node

theorem sockets_outline (n : Node) (side : Side) :
    n.outline.sockets side = (n.sockets side).map Socket.outline := by
  cases side <;> rfl

theorem socket?_outline (n : Node) (side : Side) (index : Nat) :
    n.outline.socket? side index = (n.socket? side index).map Socket.outline := by
  rw [socket?, sockets_outline, List.getElem?_map, socket?]

theorem find?_outline (n : Node) (side : Side) (name : String) :
    n.outline.find? side name = n.find? side name := by
  rw [find?, sockets_outline, List.findIdx?_map, find?]
  rfl

theorem peers_outline (n : Node) : n.outline.peers = n.peers := by
  rw [peers, outline, List.filterMap_map, peers]
  rfl

theorem inputSpecs_outline (n : Node) :
    n.outline.inputs.map (·.spec) = n.inputs.map (·.spec) := by
  rw [outline, List.map_map]
  rfl

theorem outline_outline (n : Node) : n.outline.outline = n.outline := by
  rw [outline]
  simp only [outline, Block.usual_usual, List.map_map]
  rfl

theorem outline_modifySocket (n : Node) (side : Side) (index : Nat) {f : Socket → Socket}
    (commutes : ∀ s, (f s).outline = f s.outline) :
    (n.modifySocket side index f).outline = n.outline.modifySocket side index f := by
  have modified (xs : List Socket) : (xs.modify index f).map Socket.outline
      = (xs.map Socket.outline).modify index f := by
    apply List.ext_getElem?
    intro i
    rw [List.getElem?_map, List.getElem?_modify, List.getElem?_modify, List.getElem?_map]
    cases xs[i]? with
    | none => rfl
    | some s => by_cases here : index = i <;> simp [here, commutes]
  cases side <;> simp only [modifySocket, outline, modified]

theorem outline_setLiteral (n : Node) (side : Side) (index : Nat) (v : Value) :
    (n.modifySocket side index fun s => { s with default? := some v }).outline = n.outline := by
  have same := map_modify (f := fun s : Socket => { s with default? := some v })
    (g := Socket.outline) fun _ => rfl
  cases side <;> simp only [modifySocket, outline, same]

theorem outline_ofBlock (name : String) {b b' : Block} (same : b'.usual = b.usual) :
    (ofBlock name b').outline = (ofBlock name b).outline := by
  have inputs : b'.inputSpecs = b.inputSpecs := by
    rw [← b'.inputSpecs_usual, same, b.inputSpecs_usual]
  have outputs : b'.outputSpecs = b.outputSpecs := by
    rw [← b'.outputSpecs_usual, same, b.outputSpecs_usual]
  simp only [outline, ofBlock, same, inputs, outputs]

end Node

namespace Graph

theorem node?_outline (g : Graph) (id : BlockId) :
    g.outline.node? id = (g.node? id).map Node.outline :=
  lookup_map_values ..

theorem hasBlock_outline (g : Graph) (id : BlockId) : g.outline.hasBlock id = g.hasBlock id := by
  rw [hasBlock, node?_outline, Option.isSome_map, hasBlock]

theorem outline_outline (g : Graph) : g.outline.outline = g.outline := by
  simp only [outline, List.map_map, Function.comp_def, Node.outline_outline]

theorem inputSpecs_of_outline {g g' : Graph} (same : g'.outline = g.outline) {id : BlockId}
    {n : Node} (here : g.node? id = some n) :
    ∃ n', g'.node? id = some n' ∧ n'.inputs.map (·.spec) = n.inputs.map (·.spec) := by
  have found : (g'.node? id).map Node.outline = some n.outline := by
    rw [← node?_outline, same, node?_outline, here, Option.map_some]
  obtain ⟨n', here', alike⟩ := Option.map_eq_some_iff.1 found
  exact ⟨n', here', by rw [← n'.inputSpecs_outline, alike, n.inputSpecs_outline]⟩

theorem outline_modifySocket (g : Graph) (p : SocketId) {f : MeshFlow.Socket → MeshFlow.Socket}
    (commutes : ∀ s : MeshFlow.Socket, (f s).outline = f s.outline) :
    (g.modifySocket p f).outline = g.outline.modifySocket p f := by
  simp only [modifySocket, modifyNode, outline, List.map_map]
  congr 1
  refine List.map_congr_left ?_
  rintro ⟨id, n⟩ -
  simp only [Function.comp_apply]
  split
  · rw [Node.outline_modifySocket _ _ _ commutes]
  · rfl

theorem outline_setLiteral (g : Graph) (p : SocketId) (v : Value) :
    (g.modifySocket p fun s => { s with default? := some v }).outline = g.outline := by
  simp only [modifySocket, modifyNode, outline, List.map_map]
  congr 1
  refine List.map_congr_left ?_
  rintro ⟨id, n⟩ -
  simp only [Function.comp_apply]
  split
  · rw [Node.outline_setLiteral]
  · rfl

theorem outline_insertNode (id : BlockId) (n : Node) (nodes : List (BlockId × Node)) :
    (insertNode id n nodes).map (fun e => (e.1, e.2.outline))
      = insertNode id n.outline (nodes.map fun e => (e.1, e.2.outline)) := by
  induction nodes with
  | nil => rfl
  | cons entry rest ih =>
    rw [insertNode, List.map_cons, insertNode, ← ih]
    split
    · rfl
    · split <;> rfl

theorem outline_insert (g : Graph) (id : BlockId) (name : String) {b b' : Block}
    (same : b'.usual = b.usual) :
    (g.insert id name b').map outline = (g.outline.insert id name b).map outline := by
  rw [insert, insert, hasBlock_outline]
  split
  · rfl
  · have nodes : (insertNode id (.ofBlock name b') g.nodes).map (fun e => (e.1, e.2.outline))
        = (insertNode id (.ofBlock name b) g.outline.nodes).map fun e => (e.1, e.2.outline) := by
      rw [outline_insertNode, outline_insertNode, Node.outline_ofBlock name same]
      exact congrArg (insertNode id _) (congrArg Graph.nodes g.outline_outline).symm
    cases numberAfter id with
    | error e => rfl
    | ok above =>
      exact congrArg Except.ok (congrArg (fun nodes => ({ g with nodes, nextId := _ } : Graph)) nodes)

theorem inputSpecs_of_insert {g g' : Graph} {id : BlockId} {name : String} {block : Block}
    (inserted : g.insert id name block = .ok g') :
    ∃ n, g'.node? id = some n ∧ n.inputs.map (·.spec) = block.inputSpecs := by
  refine ⟨.ofBlock name block, (node?_insert inserted id).trans (if_pos rfl), ?_⟩
  simp [Node.ofBlock, Function.comp_def]

theorem namedSocket_of_node? {g : Graph} {id : BlockId} {n : Node} (here : g.node? id = some n)
    (side : Side) (name : String) : g.namedSocket id side name
      = (n.find? side name).elim (.error (.socketNotFound id name)) fun i => .ok ⟨id, side, i⟩ := by
  cases found : n.find? side name <;>
    simp [namedSocket, requireNode, here, found, bind, Except.bind]

theorem requireSocket_of_node? {g : Graph} {p : SocketId} {n : Node}
    (here : g.node? p.block = some n) : g.requireSocket p = (n.socket? p.side p.index).elim
      (.error (.socketNotFound p.block (toString p.index))) .ok := by
  cases found : n.socket? p.side p.index <;>
    simp [requireSocket, requireNode, here, found, bind, Except.bind]

theorem namedSocket_outline (g : Graph) (id : BlockId) (side : Side) (name : String) :
    g.outline.namedSocket id side name = g.namedSocket id side name := by
  have outlined := g.node?_outline id
  cases here : g.node? id with
  | none =>
    rw [here] at outlined
    simp only [namedSocket, requireNode, outlined, here]
    rfl
  | some n =>
    rw [here] at outlined
    rw [namedSocket_of_node? outlined, namedSocket_of_node? here, Node.find?_outline]

theorem requireSocket_outline (g : Graph) (p : SocketId) :
    g.outline.requireSocket p = (g.requireSocket p).map Socket.outline := by
  have outlined := g.node?_outline p.block
  cases here : g.node? p.block with
  | none =>
    rw [here] at outlined
    simp only [requireSocket, requireNode, outlined, here]
    rfl
  | some n =>
    rw [here] at outlined
    rw [requireSocket_of_node? outlined, requireSocket_of_node? here, Node.socket?_outline]
    cases n.socket? p.side p.index <;> rfl

theorem orient_outline (g : Graph) (a b : SocketId) : g.outline.orient a b = g.orient a b := by
  rw [orient, requireSocket_outline, requireSocket_outline, bind_map_except, orient]
  simp only [bind_map_except]

theorem suppliers_outline (g : Graph) (id : BlockId) : g.outline.suppliers id = g.suppliers id := by
  rw [suppliers, node?_outline, suppliers]
  cases g.node? id with
  | none => rfl
  | some n => simp [Node.peers_outline]

theorem hierarchy_outline (g : Graph) (o i : SocketId) :
    g.outline.hierarchy o i = g.hierarchy o i := by
  have feeds (a b : BlockId) : g.outline.Feeds a b ↔ g.Feeds a b := by
    rw [Feeds, suppliers_outline, Feeds]
  have ancestor : g.outline.isAncestorOf i.block o.block = g.isAncestorOf i.block o.block := by
    rw [Bool.eq_iff_iff, isAncestorOf_iff, isAncestorOf_iff]
    exact ⟨fun up => up.mono fun a b => (feeds a b).1, fun up => up.mono fun a b => (feeds a b).2⟩
  rw [hierarchy, ancestor, hierarchy]

theorem outline_link (g : Graph) (o i : SocketId) :
    (g.link o i).outline = g.outline.link o i := by
  have fed := g.outline_modifySocket i (f := fun s => { s with peer := some o }) fun _ => rfl
  have feeding := (g.modifySocket i fun s => { s with peer := some o }).outline_modifySocket o
    (f := fun s => { s with endpoints := s.endpoints ++ [i] }) fun _ => rfl
  rw [fed] at feeding
  exact congrArg (fun g' : Graph => { g' with connections := g.connections ++ [Connection.mk o i] })
    feeding

theorem outline_connectUnchecked (g : Graph) (a b : SocketId) :
    (g.connectUnchecked a b).map outline = g.outline.connectUnchecked a b := by
  rw [connectUnchecked, connectIf, map_bind_except, connectUnchecked, connectIf, orient_outline]
  congr 1
  funext ends
  obtain ⟨o, i⟩ := ends
  simp only [requireSocket_outline, bind_map_except, map_bind_except, hierarchy_outline,
    ← outline_link]
  congr 1
  funext target
  change Except.map _ (if target.peer.isSome then _ else _) = if target.peer.isSome then _ else _
  split
  · rfl
  · cases g.hierarchy o i <;> rfl

theorem outline_loadConnection (g : Graph) (saved : SavedConnection) :
    (g.loadConnection saved).map outline = g.outline.loadConnection saved := by
  simp only [loadConnection, map_bind_except, namedSocket_outline, outline_connectUnchecked]

theorem outline_setOutput (g : Graph) (id : BlockId) :
    (g.setOutput id).map outline = g.outline.setOutput id := by
  rw [setOutput, setOutput, hasBlock_outline]
  split <;> rfl

/-- Why an input of a block is not loaded where the block declares these inputs, if so. -/
def refusal? (specs : List SocketSpec) (id : BlockId) (saved : SavedInput) : Option LoadError :=
  match saved.value, specs.find? (·.name == saved.name) with
  | some j, some spec =>
    match Value.literal? spec.kind j with
    | some _ => none
    | none => some <|
      .invalidProperty id saved.name s!"{j.compact} is not a {spec.kind.name} literal"
  | _, _ => none

/-- The graph, or the error that there is. -/
def unlessRefused (refusal : Option LoadError) (g : Graph) : Except LoadError Graph :=
  match refusal with
  | some e => .error e
  | none => .ok g

theorem find?_specs (n : Node) (name : String) :
    (n.inputs.map (·.spec)).find? (·.name == name)
      = (n.find? .input name).bind fun i => (n.socket? .input i).map (·.spec) := by
  rw [List.find?_map]
  cases found : n.find? .input name with
  | none =>
    have absent := List.findIdx?_eq_none_iff.1 found
    rw [List.find?_eq_none.2 fun s mem => by simp [absent s mem]]
    rfl
  | some i =>
    obtain ⟨bound, named, first⟩ := List.findIdx?_eq_some_iff_getElem.1 found
    have here : n.inputs.find? ((·.name == name) ∘ (·.spec)) = some n.inputs[i] :=
      List.find?_eq_some_iff_getElem.2
        ⟨named, i, bound, rfl, fun j before => by simpa [Node.sockets] using first j before⟩
    rw [here]
    exact congrArg (Option.map _) (List.getElem?_eq_getElem bound).symm

section
variable {g : Graph} {id : BlockId} {n : Node} {specs : List SocketSpec}

theorem outline_loadInput (here : g.node? id = some n) (same : n.inputs.map (·.spec) = specs)
    (saved : SavedInput) :
    (g.loadInput id saved).map outline = unlessRefused (refusal? specs id saved) g.outline := by
  rw [loadInput, refusal?, ← same, find?_specs, namedSocket_of_node? here]
  cases saved.value with
  | none => rfl
  | some j =>
    cases found : n.find? .input saved.name with
    | none => rfl
    | some i =>
      obtain ⟨bound, -, -⟩ := List.findIdx?_eq_some_iff_getElem.1 found
      have socket : n.socket? .input i = some n.inputs[i] := List.getElem?_eq_getElem bound
      have atPlace : g.socket? ⟨id, .input, i⟩ = some n.inputs[i] :=
        (socket?_of_node? here).trans socket
      simp only [Option.elim_some, atPlace, socket, Option.bind_some, Option.map_some,
        Option.getD_some]
      cases Value.literal? n.inputs[i].spec.kind j with
      | none => rfl
      | some v =>
        have set := (setDefault_eq_ok_iff g _ ⟨id, .input, i⟩ v).2 ⟨by simp [atPlace], rfl⟩
        simp only [set]
        exact congrArg Except.ok (g.outline_setLiteral ..)

theorem outline_of_loadInput {g' : Graph} (here : g.node? id = some n) {saved : SavedInput}
    (done : g.loadInput id saved = .ok g') : g'.outline = g.outline := by
  have loaded := outline_loadInput here rfl saved
  rw [done] at loaded
  cases refused : refusal? (n.inputs.map (·.spec)) id saved with
  | some e =>
    rw [refused] at loaded
    cases loaded
  | none =>
    rw [refused] at loaded
    exact Except.ok.inj loaded

theorem outline_loadInputs (here : g.node? id = some n) (same : n.inputs.map (·.spec) = specs)
    (inputs : List SavedInput) :
    (inputs.foldlM (fun (g : Graph) i => g.loadInput id i) g).map outline
      = unlessRefused (inputs.findSome? (refusal? specs id)) g.outline := by
  induction inputs generalizing g n with
  | nil => rfl
  | cons i rest ih =>
    have first := outline_loadInput here same i
    rw [List.foldlM_cons, List.findSome?_cons]
    cases refused : refusal? specs id i with
    | some e =>
      rw [refused, unlessRefused, map_eq_error_iff] at first
      rw [first]
      rfl
    | none =>
      rw [refused] at first
      obtain ⟨g', done⟩ := (exists_ok_map_iff outline _).1 ⟨_, first⟩
      have outlined := outline_of_loadInput here done
      rw [done]
      obtain ⟨n', here', specs'⟩ := inputSpecs_of_outline outlined here
      exact (ih here' (specs'.trans same)).trans (by rw [outlined])

end

def sketchBlock (r : Registry) (g : Graph) (saved : SavedBlock) : Except LoadError Graph := do
  let block ← (r.create saved.className (.object saved.properties)).mapError .create
  let g ← ((g.insert saved.id saved.name block).map outline).mapError .graph
  unlessRefused (saved.inputs.findSome? (refusal? block.inputSpecs saved.id)) g

theorem outline_loadBlock (r : Registry) (g : Graph) (saved : SavedBlock) :
    (g.loadBlock r saved).map outline = g.outline.sketchBlock r saved := by
  rw [loadBlock, sketchBlock, map_bind_except]
  congr 1
  funext block
  rw [← g.outline_insert _ _ rfl, ← map_mapError, bind_map_except, map_bind_except]
  cases inserted : g.insert saved.id saved.name block with
  | error e => rfl
  | ok g' =>
    obtain ⟨n, here, specs⟩ := inputSpecs_of_insert inserted
    exact outline_loadInputs here specs saved.inputs

def sketch (r : Registry) (saved : SavedGraph) : Except LoadError Graph := do
  let g ← saved.blocks.foldlM (sketchBlock r) empty
  let g ← (saved.connections.foldlM loadConnection g).mapError .graph
  match saved.output with
  | some id => (g.setOutput id).mapError .graph
  | none => return g

theorem outline_load (r : Registry) (saved : SavedGraph) :
    (load r saved).map outline = sketch r saved := by
  have blocks := map_foldlM (outline_loadBlock r) saved.blocks empty
  rw [load, sketch, map_bind_except]
  change _ = saved.blocks.foldlM (sketchBlock r) empty.outline >>= _
  rw [← blocks, bind_map_except]
  congr 1
  funext g
  rw [map_bind_except, ← map_foldlM outline_loadConnection, ← map_mapError, bind_map_except]
  congr 1
  funext g'
  cases saved.output with
  | none => rfl
  | some id =>
    change Except.map outline ((g'.setOutput id).mapError _) = (g'.outline.setOutput id).mapError _
    rw [← outline_setOutput, map_mapError]

theorem exists_load_iff (r : Registry) (saved : SavedGraph) :
    (∃ g, load r saved = .ok g) ↔ ∃ g, sketch r saved = .ok g := by
  rw [← outline_load, exists_ok_map_iff]

theorem load_eq_error_iff (r : Registry) (saved : SavedGraph) (e : LoadError) :
    load r saved = .error e ↔ sketch r saved = .error e := by
  rw [← outline_load, map_eq_error_iff]

end Graph
end MeshFlow
