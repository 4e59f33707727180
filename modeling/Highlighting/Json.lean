-- Results as JSON text, over several lines with an indent of two spaces.
import Highlighting.Highlighter

namespace Highlighting

/-- A JSON value. The members of an object stand in order. -/
inductive JsonValue where
  | null
  | bool (b : Bool)
  | nat (n : Nat)
  | str (s : String)
  | arr (items : List JsonValue)
  | obj (members : List (String × JsonValue))

namespace JsonValue

/-! ## Writing -/

/-- A hexadecimal digit. -/
def hexDigit (n : Nat) : Char := Nat.digitChar (n % 16)

/-- A character inside quotes. Quotes, backslashes and control characters
are escaped. -/
def escapeChar (c : Char) : List Char :=
  match c with
  | '"' => ['\\', '"']
  | '\\' => ['\\', '\\']
  | '\n' => ['\\', 'n']
  | '\r' => ['\\', 'r']
  | '\t' => ['\\', 't']
  | '\x08' => ['\\', 'b']
  | '\x0c' => ['\\', 'f']
  | c =>
    if c.toNat < 0x20 then ['\\', 'u', '0', '0', hexDigit (c.toNat / 16), hexDigit c.toNat]
    else [c]

/-- A text between quotes. -/
def quote (s : String) : String := "\"" ++ String.ofList (s.toList.flatMap escapeChar) ++ "\""

/-- The start of a line that is indented so many times. -/
def newLine (indent : Nat) : String := "\n" ++ String.ofList (List.replicate (2 * indent) ' ')

mutual

/-- The text of a value whose lines are indented. -/
def write (indent : Nat) : JsonValue → String
  | null => "null"
  | bool b => if b then "true" else "false"
  | nat n => String.ofList (Nat.toDigits 10 n)
  | str s => quote s
  | arr [] => "[]"
  | arr (x :: xs) =>
    "[" ++ newLine (indent + 1) ++ write (indent + 1) x ++ writeItems (indent + 1) xs ++
      newLine indent ++ "]"
  | obj [] => "\x7b\x7d"
  | obj ((k, v) :: ms) =>
    "\x7b" ++ newLine (indent + 1) ++ quote k ++ ": " ++ write (indent + 1) v ++
      writeMembers (indent + 1) ms ++ newLine indent ++ "\x7d"

/-- The items after the first. -/
def writeItems (indent : Nat) : List JsonValue → String
  | [] => ""
  | x :: xs => "," ++ newLine indent ++ write indent x ++ writeItems indent xs

/-- The members after the first. -/
def writeMembers (indent : Nat) : List (String × JsonValue) → String
  | [] => ""
  | (k, v) :: ms =>
    "," ++ newLine indent ++ quote k ++ ": " ++ write indent v ++ writeMembers indent ms

end

/-- The text of a value. -/
def text (j : JsonValue) : String := j.write 0

end JsonValue

/-! ## Results -/

mutual

/-- A node with its kind, and an element with its class names. -/
def Node.json : Node → JsonValue
  | .text value => .obj [("type", .str "text"), ("value", .str value)]
  | .element classNames children =>
    .obj [("type", .str "element"), ("tagName", .str "span"),
      ("properties", .obj [("className", .arr (classNames.map .str))]),
      ("children", .arr (jsonOfNodes children))]

def jsonOfNodes : List Node → List JsonValue
  | [] => []
  | n :: ns => n.json :: jsonOfNodes ns

end

/-- A result; the runner-up is left out if there is none. -/
def Highlighted.json (h : Highlighted) : JsonValue :=
  let own : List (String × JsonValue) := [
    ("language", match h.language with
      | some name => .str name
      | none => .null),
    ("relevance", .nat h.relevance),
    ("value", .arr (jsonOfNodes h.nodes)),
    ("illegal", .bool h.illegal)]
  match h with
  | { secondBest := some s, .. } => .obj (own ++ [("secondBest", s.json)])
  | _ => .obj own

end Highlighting
