import MeshFlow.Number.Convert

set_option autoImplicit false

/-!
# JSON trees

A tree keeps the members of an object in the order they were written, repeats included. `normal`
gives the tree its meaning as a value: members sorted by key, of a repeated key the last one.
-/
namespace MeshFlow

/-- A number is an integer of at most 64 bits, signed or not, or else a double-precision float. -/
inductive Json.Number where
  | int (value : Int)
  | float (value : Float)

inductive Json where
  | null
  | bool (value : Bool)
  | number (value : Json.Number)
  | string (value : String)
  | array (items : List Json)
  | object (members : List (String × Json))

namespace Json

instance : Inhabited Json := ⟨null⟩

def ofInt (i : Int) : Json := number (.int i)

def ofNat (n : Nat) : Json := number (.int n)

/-- A float, or `null` where it is not finite. -/
def ofFloat (x : Float) : Json := if x.isFinite then number (.float x) else null

/-- A single-precision float is written as the double that equals it. -/
def ofFloat32 (x : Float32) : Json := ofFloat (Number.widen x)

namespace Number

def toFloat : Json.Number → Float
  | int i => MeshFlow.Number.wideOfInt i
  | float x => x

def toFloat32 : Json.Number → Float32
  | int i => MeshFlow.Number.ofInt i
  | float x => MeshFlow.Number.narrow x

def toInt64? : Json.Number → Option Int
  | int i => if i ≤ 9223372036854775807 then some i else none
  | float _ => none

end Number

/-- Puts a member into a list sorted by key; it replaces a member of the same key. -/
def insertMember (key : String) (value : Json) : List (String × Json) → List (String × Json)
  | [] => [(key, value)]
  | (k, v) :: rest =>
    if key < k then (key, value) :: (k, v) :: rest
    else if key = k then (key, value) :: rest
    else (k, v) :: insertMember key value rest

def sortMembers (members : List (String × Json)) : List (String × Json) :=
  members.foldl (fun sorted m => insertMember m.1 m.2 sorted) []

mutual

/-- The tree as a value: keys sorted, the last of equal keys kept, at every depth. -/
def normal : Json → Json
  | array items => array (normalItems items)
  | object members => object (sortMembers (normalMembers members))
  | leaf => leaf

def normalItems : List Json → List Json
  | [] => []
  | item :: rest => item.normal :: normalItems rest

def normalMembers : List (String × Json) → List (String × Json)
  | [] => []
  | (key, value) :: rest => (key, value.normal) :: normalMembers rest

end

/-- The last member of a key; nothing for trees that are not objects. -/
def get? (key : String) : Json → Option Json
  | object members => (members.reverse.find? (·.1 == key)).map (·.2)
  | _ => none

def isNull : Json → Bool
  | null => true
  | _ => false

end Json
end MeshFlow
