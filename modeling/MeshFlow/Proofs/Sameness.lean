import Mathlib.Data.List.Forall2
import MeshFlow.Document.Save
import MeshFlow.Proofs.Lookup
import MeshFlow.Proofs.Refining

set_option autoImplicit false

/-!
# Graphs that cannot be told apart

Two graphs are the same where their blocks, their connections and their output are. Literals of
outputs are left out, since nothing reads them, and so is the number of the next block. Such graphs
are saved alike. A build takes no notice of what outputs feed either, nor of the order of the
connections: graphs that are alike in all else have the same outcomes.
-/
namespace MeshFlow

theorem map_eq_map_iff_of_forall₂ {α β γ : Type} {R : α → β → Prop} {f : α → γ} {f' : β → γ}
    {P : α → Prop} {xs : List α} {ys : List β} (h : List.Forall₂ R xs ys)
    (each : ∀ x y, R x y → (f' y = f x ↔ P x)) : ys.map f' = xs.map f ↔ ∀ x ∈ xs, P x := by
  induction h with
  | nil => exact iff_of_true rfl (List.forall_mem_nil _)
  | cons first _ ih => rw [List.map_cons, List.map_cons, List.cons.injEq, List.forall_mem_cons,
      each _ _ first, ih]

theorem map_eq_of_forall₂ {α β γ : Type} {R : α → β → Prop} {f : α → γ} {f' : β → γ}
    {xs : List α} {ys : List β} (h : List.Forall₂ R xs ys) (each : ∀ x y, R x y → f' y = f x) :
    ys.map f' = xs.map f :=
  (map_eq_map_iff_of_forall₂ (P := fun _ => True) h
    fun x y related => iff_of_true (each x y related) trivial).2 fun _ _ => trivial

theorem rel_lookup {R : Node → Node → Prop} {nodes nodes' : List (BlockId × Node)}
    (h : List.Forall₂ (fun a b => b.1 = a.1 ∧ R a.2 b.2) nodes nodes') (id : BlockId) :
    Option.Rel R (nodes.lookup id) (nodes'.lookup id) := by
  induction h with
  | nil => exact .none
  | @cons a b _ _ entry _ ih =>
    obtain ⟨j, n⟩ := a
    obtain ⟨j', n'⟩ := b
    obtain ⟨rfl, related⟩ := entry
    rw [lookup_cons_ite, lookup_cons_ite]
    split
    · exact .some related
    · exact ih

structure Node.Same (n n' : Node) : Prop where
  name : n'.name = n.name
  block : n'.block = n.block
  inputs : n'.inputs = n.inputs
  outputs : n'.outputs.map (fun s => (s.spec, s.endpoints))
    = n.outputs.map fun s => (s.spec, s.endpoints)

namespace Node

variable {n n' : Node}

theorem Same.outputSpecs (h : n.Same n') :
    n'.outputs.map (·.spec) = n.outputs.map (·.spec) := by
  have specs := congrArg (List.map Prod.fst) h.outputs
  rw [List.map_map, List.map_map] at specs
  exact specs

theorem Same.spec? (h : n.Same n') (side : Side) (index : Nat) :
    (n'.socket? side index).map (·.spec) = (n.socket? side index).map (·.spec) := by
  cases side with
  | input => rw [socket?, socket?, sockets, sockets, h.inputs]
  | output =>
    rw [socket?, socket?, sockets, sockets, ← List.getElem?_map, ← List.getElem?_map,
      h.outputSpecs]

theorem Same.save (h : n.Same n') (id : BlockId) : n'.save id = n.save id := by
  have names : n'.outputs.map (fun p => (⟨p.spec.name⟩ : SavedOutput))
      = n.outputs.map fun p => ⟨p.spec.name⟩ := by
    have mapped := congrArg (List.map fun spec => (⟨spec.name⟩ : SavedOutput)) h.outputSpecs
    rw [List.map_map, List.map_map] at mapped
    exact mapped
  rw [Node.save, Node.save, h.name, h.block, h.inputs, names]

end Node

namespace Graph

structure Same (g g' : Graph) : Prop where
  nodes : List.Forall₂ (fun a b => b.1 = a.1 ∧ a.2.Same b.2) g.nodes g'.nodes
  connections : g'.connections = g.connections
  output : g'.output = g.output

variable {g g' : Graph}

theorem Same.size (h : g.Same g') : g'.size = g.size := h.nodes.length_eq.symm

theorem Same.node? (h : g.Same g') (id : BlockId) :
    Option.Rel Node.Same (g.node? id) (g'.node? id) :=
  rel_lookup h.nodes id

theorem hasBlock_of_rel {R : Node → Node → Prop} {id : BlockId}
    (h : Option.Rel R (g.node? id) (g'.node? id)) : g'.hasBlock id = g.hasBlock id := by
  rw [hasBlock, hasBlock]
  revert h
  generalize g.node? id = n
  generalize g'.node? id = n'
  intro h
  cases h <;> rfl

theorem Same.hasBlock (h : g.Same g') (id : BlockId) : g'.hasBlock id = g.hasBlock id :=
  hasBlock_of_rel (h.node? id)

theorem Same.spec? (h : g.Same g') (p : SocketId) :
    (g'.socket? p).map (·.spec) = (g.socket? p).map (·.spec) := by
  have node := h.node? p.block
  rw [socket?, socket?]
  revert node
  generalize g.node? p.block = n
  generalize g'.node? p.block = n'
  intro node
  cases node with
  | none => rfl
  | some same => exact same.spec? ..

theorem saveConnection?_congr
    (specs : ∀ p, (g'.socket? p).map (·.spec) = (g.socket? p).map (·.spec)) (c : Connection) :
    g'.saveConnection? c = g.saveConnection? c := by
  have byName : ∀ g : Graph, g.saveConnection? c
      = ((g.socket? c.output).map (·.spec)).bind fun output =>
        ((g.socket? c.input).map (·.spec)).map fun input =>
          ⟨c.output.block, output.name, c.input.block, input.name⟩ := by
    intro g
    rw [Graph.saveConnection?]
    cases g.socket? c.output with
    | none => rfl
    | some output => cases g.socket? c.input <;> rfl
  rw [byName, byName, specs, specs]

theorem Same.map_save (h : g.Same g') :
    g'.nodes.map (fun (id, n) => n.save id) = g.nodes.map fun (id, n) => n.save id := by
  refine map_eq_of_forall₂ h.nodes ?_
  rintro ⟨id, n⟩ ⟨_, n'⟩ ⟨rfl, same⟩
  exact same.save _

theorem Same.save (h : g.Same g') : g'.save = g.save := by
  have connections : g'.saveConnection? = g.saveConnection? :=
    funext (saveConnection?_congr h.spec?)
  rw [Graph.save, Graph.save, h.output, h.map_save, h.connections, connections]

end Graph

/-- The same block, fed by the same outputs, whatever its own outputs feed. -/
structure Node.Like (n n' : Node) : Prop where
  name : n'.name = n.name
  block : n'.block = n.block
  inputs : n'.inputs = n.inputs
  outputs : n'.outputs.map (·.spec) = n.outputs.map (·.spec)

namespace Node.Like
variable {n n' : Node}

theorem peers (h : n.Like n') : n'.peers = n.peers := by
  rw [Node.peers, Node.peers, h.inputs]

theorem missingInputs (h : n.Like n') : n'.missingInputs = n.missingInputs := by
  rw [Node.missingInputs, Node.missingInputs, h.inputs]

theorem length_outputs (h : n.Like n') : n'.outputs.length = n.outputs.length := by
  have lengths := congrArg List.length h.outputs
  rwa [List.length_map, List.length_map] at lengths

theorem resultFrom (h : n.Like n') (above : Supplier) (id : BlockId) :
    Graph.resultFrom above id n' = Graph.resultFrom above id n := by
  have empty : n'.outputs.isEmpty = n.outputs.isEmpty := by
    rw [Bool.eq_iff_iff, List.isEmpty_iff_length_eq_zero, List.isEmpty_iff_length_eq_zero,
      h.length_outputs]
  rw [Graph.resultFrom, Graph.resultFrom, empty]

theorem finish (h : n.Like n') (id : BlockId) (v : Value) :
    Graph.finish id n' v = Graph.finish id n v := by
  have head : n'.outputs.head?.map (·.spec.name) = n.outputs.head?.map (·.spec.name) := by
    have mapped := congrArg (fun specs => (List.head? specs).map (·.name)) h.outputs
    simp only [List.head?_map, Option.map_map] at mapped
    exact mapped
  cases v <;> simp only [Graph.finish, head]

end Node.Like

namespace Graph
variable {g g' : Graph}

/-- Under one number, two graphs have blocks that are built alike, or none. -/
def LikeAt (g g' : Graph) (id : BlockId) : Prop := Option.Rel Node.Like (g.node? id) (g'.node? id)

namespace LikeAt
variable {id : BlockId}

theorem of_node? (h : g.LikeAt g' id) {n : Node} (hn : g.node? id = some n) :
    ∃ n', g'.node? id = some n' ∧ n.Like n' := by
  rw [LikeAt, hn] at h
  generalize g'.node? id = found at h
  cases h with
  | some like => exact ⟨_, rfl, like⟩

theorem of_missing (h : g.LikeAt g' id) (hn : g.node? id = none) : g'.node? id = none := by
  rw [LikeAt, hn] at h
  generalize g'.node? id = found at h
  cases h
  rfl

theorem socket? (h : g.LikeAt g' id) (index : Nat) :
    g'.socket? (.input id index) = g.socket? (.input id index) := by
  rw [Graph.socket?, Graph.socket?, SocketId.input]
  revert h
  rw [LikeAt]
  generalize g.node? id = n
  generalize g'.node? id = n'
  intro h
  cases h with
  | none => rfl
  | some like => simp only [Option.bind_some, Node.socket?, Node.sockets, like.inputs]

theorem peer? (h : g.LikeAt g' id) (index : Nat) :
    g'.peer? (.input id index) = g.peer? (.input id index) := by
  rw [Graph.peer?, Graph.peer?, h.socket?]

theorem readInput (h : g.LikeAt g' id) (above : Supplier) (index : Nat) :
    g'.readInput above (.input id index) = g.readInput above (.input id index) := by
  rw [Graph.readInput, Graph.readInput, h.socket?]

theorem adaptInput (h : g.LikeAt g' id) (above : Supplier) (index : Nat) (kind : Kind) :
    g'.adaptInput above (.input id index) kind = g.adaptInput above (.input id index) kind := by
  unfold Graph.adaptInput
  rw [h.readInput, h.socket?]

theorem runProgram {α : Type} (h : g.LikeAt g' id) (above : Supplier) (program : Program α) :
    g'.runProgram above id program = g.runProgram above id program := by
  induction program with
  | done a => rfl
  | read i k ih => simp only [Graph.runProgram, h.readInput, ih]
  | adapt i kind k ih => simp only [Graph.runProgram, h.adaptInput, ih]
  | isConnected i k ih => simp only [Graph.runProgram, Graph.isConnected, h.peer?, ih]
  | isVarying i k ih => simp only [Graph.runProgram, Graph.isVarying, h.peer?, ih]
  | contexts k ih => simp only [Graph.runProgram, ih]
  | enter c k ih => simp only [Graph.runProgram, ih]
  | draw k ih => simp only [Graph.runProgram, ih]
  | record d k ih => simp only [Graph.runProgram, ih]
  | kept key k ih => simp only [Graph.runProgram, ih]
  | keep key v k ih => simp only [Graph.runProgram, ih]

theorem completeNode (h : g.LikeAt g' id) (above : Supplier) {n n' : Node} (like : n.Like n') :
    g'.completeNode above id n' = g.completeNode above id n := by
  unfold Graph.completeNode
  rw [like.missingInputs, like.name, like.block, like.length_outputs, h.runProgram]

theorem buildBlockWith (h : g.LikeAt g' id) (above : Supplier) :
    g'.buildBlockWith above id = g.buildBlockWith above id := by
  cases hn : g.node? id with
  | none => rw [Graph.buildBlockWith, Graph.buildBlockWith, hn, h.of_missing hn]
  | some n =>
    obtain ⟨n', hn', like⟩ := h.of_node? hn
    simp only [Graph.buildBlockWith, hn, hn', buildNode_eq, like.peers, h.completeNode above like]

end LikeAt

/-- Graphs that are built alike. -/
structure Like (g g' : Graph) : Prop where
  blocks : ∀ id, g.LikeAt g' id
  size : g'.size = g.size
  output : g'.output = g.output

theorem Same.like (h : g.Same g') : g.Like g' where
  blocks id := by
    have node := h.node? id
    rw [LikeAt]
    revert node
    generalize g.node? id = n
    generalize g'.node? id = n'
    intro node
    cases node with
    | none => exact .none
    | some same => exact .some ⟨same.name, same.block, same.inputs, same.outputSpecs⟩
  size := h.size
  output := h.output

theorem Like.readOutputWith (h : g.Like g') (above : Supplier) (p : SocketId) :
    g'.readOutputWith above p = g.readOutputWith above p := by
  unfold Graph.readOutputWith
  rw [(h.blocks p.block).buildBlockWith]
  simp only [(h.blocks _).runProgram]

theorem Like.supplierWithin (h : g.Like g') (depth : Nat) :
    g'.supplierWithin depth = g.supplierWithin depth := by
  induction depth with
  | zero => rfl
  | succ depth ih =>
    have build := funext fun id => (h.blocks id).buildBlockWith (g.supplierWithin depth)
    have read := funext (h.readOutputWith (g.supplierWithin depth))
    rw [Graph.supplierWithin, Graph.supplierWithin, ih, build, read]

theorem Like.resultValue (h : g.Like g') (id : BlockId) {n n' : Node} (like : n.Like n') :
    g'.resultValue id n' = g.resultValue id n := by
  rw [resultValue_eq, resultValue_eq, supplier, supplier, h.size, h.supplierWithin, like.resultFrom]

def concluded (config : BuildConfig) (pass : Build (Option Mesh)) : Except GraphError Outcome :=
  match pass.run (.start config) with
  | some (geometry, session) => .ok ⟨geometry, session.diagnostics⟩
  | none => .error .circular

theorem build_of_node? {id : BlockId} {n : Node} (output : g.output = some id)
    (hn : g.node? id = some n) (config : BuildConfig) :
    g.build config = concluded config (do Graph.finish id n (← g.resultValue id n)) := by
  rw [Graph.build, output]
  simp only [requireNode, hn]
  rfl

theorem build_of_missing {id : BlockId} (output : g.output = some id) (hn : g.node? id = none)
    (config : BuildConfig) : g.build config = .error (.blockNotFound id) := by
  rw [Graph.build, output]
  simp only [requireNode, hn]
  rfl

theorem Like.build (h : g.Like g') (config : BuildConfig) : g'.build config = g.build config := by
  cases output : g.output with
  | none => rw [Graph.build, Graph.build, h.output, output]
  | some id =>
    have like := h.blocks id
    cases hn : g.node? id with
    | none =>
      rw [build_of_missing output hn, build_of_missing (h.output.trans output) (like.of_missing hn)]
    | some n =>
      obtain ⟨n', hn', like⟩ := like.of_node? hn
      have finish : Graph.finish id n' = Graph.finish id n := funext (like.finish id)
      rw [build_of_node? output hn, build_of_node? (h.output.trans output) hn',
        h.resultValue id like, finish]

theorem Same.build (h : g.Same g') (config : BuildConfig) : g'.build config = g.build config :=
  h.like.build config

end Graph
end MeshFlow
