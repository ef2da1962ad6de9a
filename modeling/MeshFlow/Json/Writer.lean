import MeshFlow.Json.Basic
import MeshFlow.Number.Text

set_option autoImplicit false

/-!
# Writing JSON

Compact text has no blanks. Indented text puts every item and member on a line of its own, two
blanks further in than its container; empty containers stay on one line.
-/
namespace MeshFlow.Json

def hexDigit (n : Nat) : Char := Char.ofNat (if n < 10 then 48 + n else 87 + n)

/-- A character inside a string: quotes, backslashes and control characters are escaped. -/
def escape (c : Char) : List Char :=
  if c = '"' then ['\\', '"']
  else if c = '\\' then ['\\', '\\']
  else if c.toNat = 8 then ['\\', 'b']
  else if c.toNat = 9 then ['\\', 't']
  else if c.toNat = 10 then ['\\', 'n']
  else if c.toNat = 12 then ['\\', 'f']
  else if c.toNat = 13 then ['\\', 'r']
  else if c.toNat < 32 then ['\\', 'u', '0', '0', hexDigit (c.toNat / 16), hexDigit (c.toNat % 16)]
  else [c]

def quote (s : String) : String := "\"" ++ String.ofList (s.toList.flatMap escape) ++ "\""

def Number.text : Json.Number → String
  | .int i => toString i
  | .float x => (MeshFlow.Number.jsonText? x).getD "null"

/-- Where text is broken into lines: nowhere, or between all items and members. -/
inductive Layout where
  | compact
  | indented

namespace Layout

def lineBreak : Layout → Nat → String
  | compact, _ => ""
  | indented, depth => "\n" ++ String.ofList (List.replicate (2 * depth) ' ')

def colon : Layout → String
  | compact => ":"
  | indented => ": "

end Layout

mutual

/-- Writes a tree behind `out`, `depth` containers deep. -/
def writeTo (layout : Layout) (depth : Nat) (out : String) : Json → String
  | null => out ++ "null"
  | bool b => out ++ if b then "true" else "false"
  | number n => out ++ n.text
  | string s => out ++ quote s
  | array [] => out ++ "[]"
  | array (item :: rest) =>
    writeItemsTo layout (depth + 1) (out ++ "[" ++ layout.lineBreak (depth + 1)) (item :: rest)
      ++ layout.lineBreak depth ++ "]"
  | object [] => out ++ "\x7b\x7d"
  | object (member :: rest) =>
    writeMembersTo layout (depth + 1) (out ++ "\x7b" ++ layout.lineBreak (depth + 1))
      (member :: rest) ++ layout.lineBreak depth ++ "\x7d"

def writeItemsTo (layout : Layout) (depth : Nat) (out : String) : List Json → String
  | [] => out
  | [item] => item.writeTo layout depth out
  | item :: rest =>
    writeItemsTo layout depth (item.writeTo layout depth out ++ "," ++ layout.lineBreak depth) rest

def writeMembersTo (layout : Layout) (depth : Nat) (out : String) :
    List (String × Json) → String
  | [] => out
  | [(key, value)] => value.writeTo layout depth (out ++ quote key ++ layout.colon)
  | (key, value) :: rest =>
    writeMembersTo layout depth
      (value.writeTo layout depth (out ++ quote key ++ layout.colon) ++ ","
        ++ layout.lineBreak depth) rest

end

def compact (j : Json) : String := j.writeTo .compact 0 ""

def indented (j : Json) : String := j.writeTo .indented 0 ""

end MeshFlow.Json
