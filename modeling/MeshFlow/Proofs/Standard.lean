import Mathlib.Data.List.Nodup
import MeshFlow.Proofs.Changes

set_option autoImplicit false

/-!
# Graphs over the standard blocks

The sockets of a standard block follow from its class alone. Edits that bring in standard blocks
and change settings within a class therefore leave every block with the sockets that it declares,
and with the literals that these start with or later ones.
-/
namespace MeshFlow

namespace Block

/-- The block of the same class with its usual settings. -/
def usual : Block → Block
  | box _ => box false
  | sphere _ => sphere false
  | plane _ => plane false
  | cylinder _ => cylinder false
  | pointList _ => pointList []
  | mesh .. => mesh none false
  | input _ => input {}
  | output => output
  | math _ => math .add
  | random _ => random .none
  | vectorConverter => vectorConverter
  | shift => shift
  | scaling => scaling
  | rotation _ => rotation .x
  | matrixCompose => matrixCompose
  | setAttribute target _ => setAttribute target true
  | computeNormals _ => computeNormals true
  | transform _ => transform true
  | merge _ => merge true
  | info => info
  | instantiate _ => instantiate true
  | instantiateOnFaces _ => instantiateOnFaces true
  | instantiateOnVertices .. => instantiateOnVertices true true
  | instantiateOnVolume .. => instantiateOnVolume true 100
  | custom block => custom block

theorem usual_mem {b : Block} (h : b.IsStandard) : b.usual ∈ standard := by
  cases b with
  | custom _ => exact h.elim
  | setAttribute target everyRead => cases target <;> simp [usual, standard]
  | _ => simp [usual, standard]

theorem className_usual (b : Block) : b.usual.className = b.className := by
  cases b with
  | setAttribute target everyRead => cases target <;> rfl
  | _ => rfl

theorem sockets_usual (b : Block) : b.usual.sockets = b.sockets := by
  cases b <;> rfl

theorem nodup_className : (standard.map className).Nodup := by
  decide +kernel

theorem usual_eq_of_className {b b' : Block} (h : b.IsStandard) (h' : b'.IsStandard)
    (same : b.className = b'.className) : b.usual = b'.usual := by
  apply List.inj_on_of_nodup_map nodup_className (usual_mem h) (usual_mem h')
  rw [className_usual, className_usual, same]

theorem sockets_eq_of_className {b b' : Block} (h : b.IsStandard) (h' : b'.IsStandard)
    (same : b.className = b'.className) : b.sockets = b'.sockets := by
  rw [← sockets_usual b, ← sockets_usual b', usual_eq_of_className h h' same]

end Block

/-- The same socket, whatever it is connected to; it may have got a literal. -/
structure Socket.Alike (s s' : Socket) : Prop where
  spec : s'.spec = s.spec
  literal : s'.default? = none → s.default? = none

theorem Socket.Alike.refl (s : Socket) : s.Alike s := ⟨rfl, id⟩

theorem Socket.alike_setLiteral (s : Socket) (v : Value) :
    s.Alike { s with default? := some v } := ⟨rfl, nofun⟩

structure Node.Alike (n n' : Node) : Prop where
  name : n'.name = n.name
  block : n'.block = n.block
  sockets : ∀ side index, Option.Rel Socket.Alike (n.socket? side index) (n'.socket? side index)

theorem Node.Alike.refl (n : Node) : n.Alike n where
  name := rfl
  block := rfl
  sockets side index := by
    cases n.socket? side index with
    | none => exact .none
    | some s => exact .some (.refl s)

theorem Node.Alike.trans {n n' n'' : Node} (h : n.Alike n') (h' : n'.Alike n'') : n.Alike n'' where
  name := h'.name.trans h.name
  block := h'.block.trans h.block
  sockets side index := by
    have first := h.sockets side index
    have second := h'.sockets side index
    revert first second
    generalize n.socket? side index = s
    generalize n'.socket? side index = s'
    generalize n''.socket? side index = s''
    intro first second
    cases first with
    | none =>
      cases second with
      | none => exact .none
    | some alike =>
      cases second with
      | some alike' =>
        exact .some ⟨alike'.spec.trans alike.spec, fun none => alike.literal (alike'.literal none)⟩

theorem Node.Alike.specs {n n' : Node} (h : n.Alike n') (side : Side) :
    (n'.sockets side).map (·.spec) = (n.sockets side).map (·.spec) := by
  apply List.ext_getElem?
  intro index
  rw [List.getElem?_map, List.getElem?_map]
  have here := h.sockets side index
  revert here
  rw [Node.socket?, Node.socket?]
  generalize (n.sockets side)[index]? = s
  generalize (n'.sockets side)[index]? = s'
  intro here
  cases here with
  | none => rfl
  | some alike => exact congrArg some alike.spec

theorem Node.alike_modifySocket (n : Node) (side : Side) (index : Nat) (f : Socket → Socket)
    (alike : ∀ s : Socket, s.Alike (f s)) : n.Alike (n.modifySocket side index f) where
  name := n.name_modifySocket ..
  block := n.block_modifySocket ..
  sockets side' index' := by
    rw [Node.socket?_modifySocket]
    cases n.socket? side' index' with
    | none => split <;> exact .none
    | some s =>
      split
      · exact .some (alike s)
      · exact .some (.refl s)

namespace Graph

def Alike (g g' : Graph) : Prop :=
  ∀ id n', g'.node? id = some n' → ∃ n, g.node? id = some n ∧ n.Alike n'

theorem Alike.refl (g : Graph) : g.Alike g := fun _ n h => ⟨n, h, .refl n⟩

theorem Alike.trans {g g' g'' : Graph} (h : g.Alike g') (h' : g'.Alike g'') : g.Alike g'' := by
  intro id n'' hn''
  obtain ⟨n', hn', alike'⟩ := h' id n'' hn''
  obtain ⟨n, hn, alike⟩ := h id n' hn'
  exact ⟨n, hn, alike.trans alike'⟩

theorem Alike.of_node? {g g' : Graph} (h : ∀ id, g'.node? id = g.node? id) : g.Alike g' :=
  fun id n hn => ⟨n, h id ▸ hn, .refl n⟩

theorem alike_modifySocket (g : Graph) (p : SocketId) (f : MeshFlow.Socket → MeshFlow.Socket)
    (alike : ∀ s : MeshFlow.Socket, s.Alike (f s)) : g.Alike (g.modifySocket p f) := by
  intro id n' hn'
  rw [node?_modifySocket] at hn'
  split at hn'
  · obtain ⟨n, hn, rfl⟩ := Option.map_eq_some_iff.1 hn'
    exact ⟨n, hn, n.alike_modifySocket _ _ f alike⟩
  · exact ⟨n', hn', .refl n'⟩

theorem alike_link (g : Graph) (o i : SocketId) : g.Alike (g.link o i) := by
  have first := g.alike_modifySocket i (fun p => { p with peer := some o }) fun _ => ⟨rfl, id⟩
  exact first.trans (alike_modifySocket _ o
    (fun p => { p with endpoints := p.endpoints ++ [i] }) fun _ => ⟨rfl, id⟩)

theorem alike_unlink (g : Graph) (o i : SocketId) : g.Alike (g.unlink o i) := by
  have first := g.alike_modifySocket i (fun p => { p with peer := none }) fun _ => ⟨rfl, id⟩
  exact first.trans (alike_modifySocket _ o
    (fun p => { p with endpoints := p.endpoints.filter (· ≠ i) }) fun _ => ⟨rfl, id⟩)

theorem alike_disconnectEach (g : Graph) (cs : List Connection) :
    g.Alike (g.disconnectEach cs).2 := by
  refine disconnectEach_keeps (fun c _ g₁ g₂ alike taken => ?_) (.refl g)
  obtain ⟨o, i, -, -, rfl⟩ := (disconnect?_eq_some_iff ..).1 taken
  exact alike.trans (g₁.alike_unlink o i)

theorem alike_remove (g : Graph) (id : BlockId) : g.Alike (g.remove id).2 := by
  intro k n' hn'
  rw [node?_remove] at hn'
  split at hn'
  · cases hn'
  · exact alike_disconnectEach g _ k n' hn'

theorem alike_connectIf {check : SocketId → SocketId → Compatibility} {g g' : Graph}
    {a b : SocketId} (done : g.connectIf check a b = .ok g') : g.Alike g' := by
  obtain ⟨o, i, target, -, -, -, -, rfl⟩ := (connectIf_eq_ok_iff ..).1 done
  exact g.alike_link o i

theorem node?_apply {g : Graph} {e : Edit} {id : BlockId} {n' : Node}
    (h : (e.apply g).node? id = some n') :
    (∃ n, g.node? id = some n ∧ n.Alike n') ∨
    (∃ name block, (e = .add name block ∨ e = .insert id name block) ∧ n' = .ofBlock name block) ∨
    ∃ n block, e = .setBlock id block ∧ g.node? id = some n ∧ n' = { n with block } := by
  have old : g.Alike (e.apply g) → ∃ n, g.node? id = some n ∧ n.Alike n' :=
    fun alike => alike id n' h
  cases e with
  | add name block =>
    rw [Edit.apply] at h
    cases done : (g.add name block).map Prod.snd with
    | error e =>
      rw [done] at h
      exact .inl ⟨n', h, .refl n'⟩
    | ok g' =>
      rw [done, orKeep, node?_add ((map_add_eq_ok_iff ..).1 done)] at h
      split at h
      · cases h
        exact .inr (.inl ⟨name, block, .inl rfl, rfl⟩)
      · exact .inl ⟨n', h, .refl n'⟩
  | insert k name block =>
    rw [Edit.apply] at h
    cases done : g.insert k name block with
    | error e =>
      rw [done] at h
      exact .inl ⟨n', h, .refl n'⟩
    | ok g' =>
      rw [done, orKeep, node?_insert done] at h
      split at h
      · rename_i here
        cases h
        exact .inr (.inl ⟨name, block, .inr (by rw [here]), rfl⟩)
      · exact .inl ⟨n', h, .refl n'⟩
  | remove k => exact .inl (old (g.alike_remove k))
  | connect a b => exact .inl (old (orKeep_keeps (.refl g) fun g' done => alike_connectIf done))
  | connectUnchecked a b =>
    exact .inl (old (orKeep_keeps (.refl g) fun g' done => alike_connectIf done))
  | disconnect a b =>
    refine .inl (old (getD_keeps (.refl g) fun g' taken => ?_))
    obtain ⟨o, i, -, -, rfl⟩ := (disconnect?_eq_some_iff ..).1 taken
    exact g.alike_unlink o i
  | disconnectAll p => exact .inl (old (g.alike_disconnectEach _))
  | setDefault p v =>
    refine .inl (old (orKeep_keeps (.refl g) fun g' done => ?_))
    obtain ⟨-, rfl⟩ := (setDefault_eq_ok_iff ..).1 done
    exact g.alike_modifySocket p _ fun s => s.alike_setLiteral v
  | setOutput k =>
    refine .inl (old (orKeep_keeps (.refl g) fun g' done => ?_))
    obtain ⟨-, rfl⟩ := (setOutput_eq_ok_iff ..).1 done
    exact .of_node? fun _ => rfl
  | setBlock k block =>
    rw [Edit.apply, Graph.setBlock, node?_modifyNode] at h
    split at h
    · rename_i here
      subst here
      obtain ⟨n, hn, rfl⟩ := Option.map_eq_some_iff.1 h
      exact .inr (.inr ⟨n, block, rfl, hn, rfl⟩)
    · exact .inl ⟨n', h, .refl n'⟩

def KeepsLiterals (g : Graph) : Prop :=
  ∀ id n, g.node? id = some n → ∀ side index s, n.socket? side index = some s →
    s.default? = none → s.spec.default? = none

theorem KeepsLiterals.apply {g : Graph} (h : g.KeepsLiterals) (e : Edit) :
    (e.apply g).KeepsLiterals := by
  intro id n' hn' side index s' hs' none
  rcases node?_apply hn' with ⟨n, hn, alike⟩ | ⟨name, block, -, rfl⟩ | ⟨n, block, -, hn, rfl⟩
  · have here := alike.sockets side index
    rw [hs'] at here
    generalize hs : n.socket? side index = found at here
    cases here with
    | some same =>
      rw [same.spec]
      exact h id n hn side index _ hs (same.literal none)
  · obtain ⟨-, -, same⟩ := socket?_ofBlock name block side index s' hs'
    rw [← same, none]
  · refine h id n hn side index s' ?_ none
    cases side <;> exact hs'

theorem ReachableBy.keepsLiterals {allowed : Graph → Edit → Prop} {g : Graph}
    (h : ReachableBy allowed g) : g.KeepsLiterals := by
  refine ReachableBy.invariant ?_ (fun g e _ _ keeps => keeps.apply e) h
  intro id n hn
  simp [Graph.empty, node?] at hn

end Graph

/-- The edit brings in blocks of a sort alone, and gives no block settings of another class. -/
def Edit.Brings (sort : Block → Prop) (g : Graph) : Edit → Prop
  | add _ block => sort block
  | insert _ _ block => sort block
  | setBlock id block =>
    sort block ∧ ∀ n, g.node? id = some n → block.className = n.block.className
  | _ => True

namespace Graph

/-- What the empty graph can become by edits that bring in blocks of a sort. -/
abbrev ReachableWith (sort : Block → Prop) : Graph → Prop :=
  ReachableBy fun g e => e.Fits g ∧ e.Brings sort g

theorem ReachableWith.reachable {sort : Block → Prop} {g : Graph} (h : g.ReachableWith sort) :
    g.Reachable :=
  ReachableBy.mono (fun _ _ allowed => allowed.1) h

/-- Every block is of a sort and has the sockets that it declares. -/
structure Declares (sort : Block → Prop) (g : Graph) : Prop where
  sort : ∀ id n, g.node? id = some n → sort n.block
  specs : ∀ id n, g.node? id = some n →
    n.inputs.map (·.spec) = n.block.inputSpecs ∧ n.outputs.map (·.spec) = n.block.outputSpecs

variable {sort : Block → Prop} {g g' : Graph}

theorem Declares.apply (standard : ∀ b, sort b → b.IsStandard) (h : g.Declares sort) {e : Edit}
    (brings : e.Brings sort g) : (e.apply g).Declares sort := by
  constructor
  · intro id n' hn'
    rcases node?_apply hn' with ⟨n, hn, alike⟩ | ⟨name, block, rfl | rfl, rfl⟩
      | ⟨n, block, rfl, hn, rfl⟩
    · rw [alike.block]
      exact h.sort id n hn
    · exact brings
    · exact brings
    · exact brings.1
  · intro id n' hn'
    rcases node?_apply hn' with ⟨n, hn, alike⟩ | ⟨name, block, -, rfl⟩ | ⟨n, block, rfl, hn, rfl⟩
    · obtain ⟨inputs, outputs⟩ := h.specs id n hn
      rw [alike.block]
      exact ⟨(alike.specs .input).trans inputs, (alike.specs .output).trans outputs⟩
    · simp [Node.ofBlock, Function.comp_def]
    · obtain ⟨inputs, outputs⟩ := h.specs id n hn
      have sockets := Block.sockets_eq_of_className (standard _ brings.1)
        (standard _ (h.sort id n hn)) (brings.2 n hn)
      simp only [Block.inputSpecs, Block.outputSpecs, sockets]
      exact ⟨inputs, outputs⟩

theorem ReachableWith.declares (standard : ∀ b, sort b → b.IsStandard)
    (h : g.ReachableWith sort) : g.Declares sort := by
  refine ReachableBy.invariant ?_ (fun g e _ allowed declares => ?_) h
  · constructor <;> exact fun id n hn => by simp [Graph.empty, node?] at hn
  · exact declares.apply standard allowed.2

end Graph
end MeshFlow
