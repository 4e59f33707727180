-- A place in a text that is being read, with the line and the column of it.
import Highlighting.Yaml.Token

namespace Highlighting.Yaml

/-- What is left of a text, and where it starts. Lines and columns count from
zero. -/
structure Cursor where
  rest : List Char
  index : Nat := 0
  line : Nat := 0
  column : Nat := 0

namespace Cursor

/-- The character `k` places on. -/
def peek? (c : Cursor) (k : Nat := 0) : Option Char := c.rest[k]?

/-- The character `k` places on is `x`. -/
def sees (c : Cursor) (x : Char) (k : Nat := 0) : Bool := c.peek? k == some x

/-- The character `k` places on satisfies `p`. -/
def seesAny (c : Cursor) (p : Char → Bool) (k : Nat := 0) : Bool := (c.peek? k).any p

/-- The text ends `k` places on. -/
def seesEnd (c : Cursor) (k : Nat := 0) : Bool := (c.peek? k).isNone

/-- A line ends here, or the text. -/
def seesBreakOrEnd (c : Cursor) (k : Nat := 0) : Bool := c.seesEnd k || c.seesAny isBreak k

/-- A word ends here: a blank, the end of the line or of the text. -/
def seesBlankOrEnd (c : Cursor) (k : Nat := 0) : Bool :=
  c.seesBreakOrEnd k || c.seesAny isBlank k

/-- Past `n` characters of one line. -/
def skip (c : Cursor) (n : Nat := 1) : Cursor :=
  { c with rest := c.rest.drop n, index := c.index + n, column := c.column + n }

/-- Past the end of a line, with what it counts as in a scalar. A carriage
return with its line feed is one end. -/
def breakLine (c : Cursor) : List Char × Cursor :=
  let next := fun (n : Nat) (rest : List Char) =>
    { c with rest := rest, index := c.index + n, line := c.line + 1, column := 0 }
  match c.rest with
  | '\r' :: '\n' :: rest => (['\n'], next 2 rest)
  | x :: rest =>
    if x == '\u2028' || x == '\u2029' then ([x], next 1 rest)
    else if isBreak x then (['\n'], next 1 rest)
    else ([], c)
  | [] => ([], c)

/-- The characters from here on that satisfy `p`, and the place after them.
None of them ends a line. -/
def span (c : Cursor) (p : Char → Bool) : List Char × Cursor :=
  let xs := c.rest.takeWhile p
  (xs, c.skip xs.length)

/-- Past spaces and tabs. -/
def skipBlanks (c : Cursor) : Cursor := (c.span isBlank).2

/-- Past a comment, if one starts here. -/
def skipComment (c : Cursor) : Cursor :=
  if c.sees '#' then (c.span (!isBreak ·)).2 else c

/-- A mark of three characters at the start of a line, alone as a word. -/
def seesMark (c : Cursor) (x : Char) : Bool :=
  c.column == 0 && c.sees x && c.sees x 1 && c.sees x 2 && c.seesBlankOrEnd 3

/-- A mark between documents. -/
def seesDocumentMark (c : Cursor) : Bool := c.seesMark '-' || c.seesMark '.'

end Cursor

end Highlighting.Yaml
