import MeshFlow.Json.Token

set_option autoImplicit false

/-!
# What is read of a text

A shape says which members of the objects of a text are read. Members that no field asks for are
passed over: their values have to be grammatical, and nothing else is asked of them. Their numbers
may be out of range, the escapes in their strings need not make characters, and they may nest to
any depth.
-/
namespace MeshFlow.Json

inductive Shape where
  /-- All of a tree is read. -/
  | any
  /-- An array whose items have a shape. -/
  | list (item : Shape)
  /-- An object with some fields, or an array of their values in order. Other members are read
  whole, or else passed over. -/
  | record (fields : List (String × Shape)) (readsOthers : Bool)

namespace Shape

def fields (names : List String) : Shape := record (names.map (·, any)) false

def item : Shape → Nat → Shape
  | any, _ => any
  | list item, _ => item
  | record fields _, index => (fields[index]?.map (·.2)).getD any

def member? : Shape → String → Option Shape
  | record fields readsOthers, key =>
    match fields.lookup key with
    | some shape => some shape
    | none => if readsOthers then some any else none
  | _, _ => some any

end Shape

/-! ## Passing over a value -/

def passNumber (cs : List Char) : Option (List Char) := do
  let (_, rest) ← integerPart cs
  let (_, rest) ← fractionPart rest
  let (_, rest) ← exponentPart rest
  return rest

/-- The text after the closing quote of a string. -/
def passString : List Char → Option (List Char)
  | [] => none
  | '"' :: rest => some rest
  | '\\' :: 'u' :: a :: b :: c :: d :: rest =>
    if (hexQuad [a, b, c, d]).isSome then passString rest else none
  | '\\' :: e :: rest => if (simpleEscape? e).isSome then passString rest else none
  | c :: rest => if c.toNat < 32 then none else passString rest

def passLeaf : List Char → Option (List Char)
  | 'n' :: 'u' :: 'l' :: 'l' :: rest => some rest
  | 't' :: 'r' :: 'u' :: 'e' :: rest => some rest
  | 'f' :: 'a' :: 'l' :: 's' :: 'e' :: rest => some rest
  | '"' :: rest => passString rest
  | '-' :: rest => passNumber rest
  | rest => passNumber rest

def passKey (cs : List Char) : Option (List Char) :=
  match skipBlanks cs with
  | '"' :: rest =>
    match (passString rest).map skipBlanks with
    | some (':' :: rest) => some rest
    | _ => none
  | _ => none

inductive Opened where
  | array
  | object

/-- The text where the next value starts, after the opening bracket or a comma of a container. -/
def passToValue : Opened → List Char → Option (List Char)
  | .array, cs => some cs
  | .object, cs => passKey cs

def Opened.isClosedBy : Opened → Char → Bool
  | .array, c => c == ']'
  | .object, c => c == '}'

def Opened.ofBracket? : Char → Option Opened
  | '[' => some .array
  | '{' => some .object
  | _ => none

def passOn : (fuel : Nat) → (behind : Bool) → List Opened → List Char → Option (List Char)
  | 0, _, _, _ => none
  | _, true, [], cs => some cs
  | fuel + 1, true, container :: outer, cs =>
    match skipBlanks cs with
    | ',' :: rest =>
      match passToValue container rest with
      | some rest => passOn fuel false (container :: outer) rest
      | none => none
    | c :: rest => if container.isClosedBy c then passOn fuel true outer rest else none
    | [] => none
  | fuel + 1, false, outer, cs =>
    match skipBlanks cs with
    | c :: rest =>
      match Opened.ofBracket? c with
      | some container =>
        match skipBlanks rest with
        | close :: rest' =>
          if container.isClosedBy close then passOn fuel true outer rest'
          else
            match passToValue container (close :: rest') with
            | some rest => passOn fuel false (container :: outer) rest
            | none => none
        | [] => none
      | none =>
        match passLeaf (c :: rest) with
        | some rest => passOn fuel true outer rest
        | none => none
    | [] => none

def passValue (fuel : Nat) (cs : List Char) : Option (List Char) := passOn fuel false [] cs

end MeshFlow.Json
