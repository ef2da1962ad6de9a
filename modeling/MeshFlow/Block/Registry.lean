import MeshFlow.Block.Properties

set_option autoImplicit false

/-!
# Registries of block classes

A registry makes blocks from the name of a class and their settings.
-/
namespace MeshFlow

inductive CreateError where
  | unknownClass (className : String)
  | properties (error : PropertyError)

structure Registry where
  factories : List (String × (Json → Except CreateError Block)) := []

namespace Registry

def empty : Registry := {}

def contains (r : Registry) (className : String) : Bool := (r.factories.lookup className).isSome

def create (r : Registry) (className : String) (properties : Json) : Except CreateError Block :=
  match r.factories.lookup className with
  | some factory => factory properties
  | none => .error (.unknownClass className)

def register (r : Registry) (className : String) (factory : Json → Except CreateError Block) :
    Registry :=
  ⟨(className, factory) :: r.factories.filter (·.1 ≠ className)⟩

/-- Makes blocks from a model with all settings replaced. -/
def factoryOf (model : Block) (properties : Json) : Except CreateError Block :=
  (model.withProperties properties).mapError .properties

def standard : Registry :=
  ⟨Block.standard.map fun b => (b.className, factoryOf b)⟩

def names (r : Registry) : List String := (r.factories.map (·.1)).mergeSort

def size (r : Registry) : Nat := r.factories.length

end Registry
end MeshFlow
