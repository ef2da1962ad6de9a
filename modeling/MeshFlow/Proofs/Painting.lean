import MeshFlow.Proofs.Heedless
import MeshFlow.Proofs.Orderly
import MeshFlow.Proofs.Parts
import MeshFlow.Proofs.Silence
import MeshFlow.Proofs.ValidPasses

set_option autoImplicit false

/-!
# Attributes written vertex by vertex

A setter reads its source once for every vertex, in order, with the geometry told as it came in, and
puts what it reads over the entry of that vertex alone. So the rest of the geometry comes out as it
came in; and if the source draws nothing, what is written at a vertex has nothing to do with the
vertices before it.
-/
namespace MeshFlow
open Program Block

theorem slice?_append_right {α : Type} {before : List α} {n : Nat} (length : before.length = n)
    (xs : List α) (start stop : Nat) :
    slice? (n + start) (n + stop) (before ++ xs) = slice? start stop xs := by
  subst length
  simp [slice?, Nat.add_sub_add_left]

namespace Mesh

/-- What a vertex has of an attribute, if the mesh has it. -/
def attributeAt? (m : Mesh) (k : Attribute) (vertex : Nat) : Option (List Float32) :=
  (m.buffer? k).bind (slice? (vertex * k.stride) (vertex * k.stride + k.stride))

theorem span_le {i n : Nat} (h : i < n) (stride : Nat) : i * stride + stride ≤ n * stride := by
  have := Nat.mul_le_mul_right stride (Nat.succ_le_of_lt h)
  rwa [Nat.succ_mul] at this

end Mesh

def Contexts.atNumber (outer : Contexts) (id : BlockId) (vertex : Nat) : Contexts :=
  { outer with execution := some (Execution.atStep id vertex) }

namespace Graph

variable {g : Graph} {s : Session} {id : BlockId} {target : Attribute}

end Graph

namespace Graph

/-- To read the source for a vertex changes nothing but what is reported: all that it goes through
has been built, and none of that draws or keeps anything. -/
def Quiet (g : Graph) (id : BlockId) (outer : Contexts) (s : Session) (vertex : Nat) : Prop :=
  Ends (g.readInput g.supplier (.input id 1)) { s with contexts := outer.atNumber id vertex }
    fun _ t => t.Like s

theorem InPass.quiet {g : Graph} {s : Session} (h : g.InPass s) (order : g.InOrder) {id : BlockId}
    {o : SocketId} (source : g.peer? (.input id 1) = some o) (visited : o.block ∈ s.built)
    (hushed : g.Hushed o.block) (outer : Contexts) (vertex : Nat) : g.Quiet id outer s vertex := by
  have sort : ∀ o', g.peer? (.input id 1) = some o' → o'.block ∈ s.built ∧ g.Hushed o'.block := by
    intro o' peer
    cases source.symm.trans peer
    exact ⟨visited, hushed⟩
  have ends := (h.enter (outer.atNumber id vertex)).readInput_ends (Facts.trivial_lasting g)
    order.wired order.acyclic (.input id 1)
  have leaves := (h.leaves order (g.size + 1)).readInput sort
    ((Session.Like.refl s).enter (outer.atNumber id vertex))
  exact (ends.and_ifEnds leaves).mono fun _ _ both => both.2

variable {g : Graph} {s : Session} {id : BlockId} {target : Attribute}

def placed : Session :=
  { Session.start {} with
    stored := [(.output 1 0, .deferred 1 (contextual .positions)),
      (.output 0 0, .value (.geometry flag))]
    built := [1, 0] }

end Graph
end MeshFlow
