import MeshFlow.Json.Shape

set_option autoImplicit false

/-!
# Reading JSON

The reader is strict: one value, blanks around it, nothing else. Containers that are read nest at
most `depthLimit` deep, which is also what the recursion runs on. A shape leaves members out of the
tree; `read?` leaves out none.
-/
namespace MeshFlow.Json

def depthLimit : Nat := 127

/-- Items up to the closing bracket; `read` holds those so far, last first. -/
def itemsBody (value : Nat → Step Json) :
    (fuel index : Nat) → (read : List Json) → Step (List Json)
  | 0, _, _, _ => none
  | fuel + 1, index, read, cs =>
    match value index cs with
    | some (item, rest) =>
      match skipBlanks rest with
      | ',' :: rest => itemsBody value fuel (index + 1) (item :: read) rest
      | ']' :: rest => some ((item :: read).reverse, rest)
      | _ => none
    | none => none

def items (fuel : Nat) (value : Nat → Step Json) (cs : List Char) :
    Option (List Json × List Char) :=
  match skipBlanks cs with
  | ']' :: rest => some ([], rest)
  | _ => itemsBody value fuel 0 [] cs

/-- Members up to the closing brace; `read` holds those so far, last first. The value of a member
gives nothing where it is passed over. -/
def membersBody (value : String → Step (Option Json)) :
    (fuel : Nat) → (read : List (String × Json)) → Step (List (String × Json))
  | 0, _, _ => none
  | fuel + 1, read, cs =>
    match skipBlanks cs with
    | '"' :: rest =>
      match stringToken fuel rest with
      | some (key, rest) =>
        match skipBlanks rest with
        | ':' :: rest =>
          match value key rest with
          | some (item, rest) =>
            let read := match item with
              | some item => (key, item) :: read
              | none => read
            match skipBlanks rest with
            | ',' :: rest => membersBody value fuel read rest
            | '}' :: rest => some (read.reverse, rest)
            | _ => none
          | none => none
        | _ => none
      | none => none
    | _ => none

def members (fuel : Nat) (value : String → Step (Option Json)) (cs : List Char) :
    Option (List (String × Json) × List Char) :=
  match skipBlanks cs with
  | '}' :: rest => some ([], rest)
  | _ => membersBody value fuel [] cs

def memberValue (fuel : Nat) (value : Shape → Step Json) : Option Shape → Step (Option Json)
  | some shape, cs => (value shape cs).map fun (j, rest) => (some j, rest)
  | none, cs => (passValue fuel cs).map fun rest => (none, rest)

def value (fuel : Nat) : (depth : Nat) → Shape → Step Json
  | depth, shape, cs =>
    match depth, skipBlanks cs with
    | _, 'n' :: 'u' :: 'l' :: 'l' :: rest => some (null, rest)
    | _, 't' :: 'r' :: 'u' :: 'e' :: rest => some (bool true, rest)
    | _, 'f' :: 'a' :: 'l' :: 's' :: 'e' :: rest => some (bool false, rest)
    | _, '"' :: rest => (stringToken fuel rest).map fun (s, rest) => (string s, rest)
    | depth + 1, '[' :: rest =>
      (items fuel (fun index => value fuel depth (shape.item index)) rest).map
        fun (xs, rest) => (array xs, rest)
    | depth + 1, '{' :: rest =>
      (members fuel (fun key => memberValue fuel (value fuel depth) (shape.member? key)) rest).map
        fun (ms, rest) => (object ms, rest)
    | _, '-' :: rest => (numberToken true rest).map fun (n, rest) => (number n, rest)
    | _, rest => (numberToken false rest).map fun (n, rest) => (number n, rest)

/-- The tree of a text that holds one value and blanks, as far as a shape asks for it. -/
def readAs? (shape : Shape) (text : String) : Option Json :=
  let cs := text.toList
  match value (cs.length + 1) depthLimit shape cs with
  | some (j, rest) => if (skipBlanks rest).isEmpty then some j else none
  | none => none

def read? (text : String) : Option Json := readAs? .any text

def decode? {α : Type} (shape : Shape) (ofJson? : Json → Option α) (text : String) : Option α :=
  (readAs? shape text).bind ofJson?

end MeshFlow.Json
