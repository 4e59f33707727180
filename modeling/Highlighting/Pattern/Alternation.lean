-- One pattern out of several. Each pattern becomes a group of its own and the
-- groups are joined by bars, so that the groups which took part in a match
-- tell which pattern it was. A reference by number inside a pattern is moved
-- by the groups that stand before it.
import Highlighting.Unicode.Property

namespace Highlighting.Alternation

/-! ## The parts of a pattern that matter -/

/-- A part of the text of a pattern. -/
inductive Token where
  /-- A character with no meaning for the count of groups. -/
  | plain (c : Char)
  /-- A class, brackets included. -/
  | charClass (cs : List Char)
  /-- A parenthesis that opens a group with a number. -/
  | capture
  /-- A parenthesis with a question mark. -/
  | special
  /-- A backslash with a number. -/
  | reference (digits : List Char)
  /-- A backslash with another character. -/
  | escape (c : Char)
  deriving DecidableEq, Repr

/-- Decimal digits that came to Unicode after the version in which patterns are matched. The
parts of a pattern are told apart in a later version. -/
def laterDigits : List (Nat × Nat) := [
  (0x10d40, 0x10d49), (0x116d0, 0x116e3), (0x11bf0, 0x11bf9), (0x11f50, 0x11f59),
  (0x16130, 0x16139), (0x16d70, 0x16d79), (0x1ccf0, 0x1ccf9), (0x1e4f0, 0x1e4f9),
  (0x1e5f1, 0x1e5fa)]

/-- A decimal digit of any script, for the number of a reference. -/
def isNumeral (c : Char) : Bool := Unicode.isDigit c || Unicode.inRuns laterDigits c

/-- The text of a class up to its closing bracket and the rest of the text,
if the class closes. -/
def classBody? : List Char → Option (List Char × List Char)
  | [] => none
  | ']' :: cs => some ([']'], cs)
  | '\\' :: c :: cs =>
    if c = '\n' then none else (classBody? cs).map fun (body, rest) => ('\\' :: c :: body, rest)
  | ['\\'] => none
  | c :: cs => (classBody? cs).map fun (body, rest) => (c :: body, rest)

/-- The parts of a text. The fuel bounds their number. -/
def tokensWith : Nat → List Char → List Token
  | 0, cs => cs.map .plain
  | _ + 1, [] => []
  | fuel + 1, '[' :: cs =>
    match classBody? cs with
    | some (body, rest) => .charClass ('[' :: body) :: tokensWith fuel rest
    | none => .plain '[' :: tokensWith fuel cs
  | fuel + 1, '(' :: '?' :: cs => .special :: tokensWith fuel cs
  | fuel + 1, '(' :: cs => .capture :: tokensWith fuel cs
  | fuel + 1, '\\' :: c :: cs =>
    if '1' ≤ c && c ≤ '9' then
      let digits := c :: cs.takeWhile isNumeral
      .reference digits :: tokensWith fuel (cs.dropWhile isNumeral)
    else if c = '\n' then .plain '\\' :: tokensWith fuel (c :: cs)
    else .escape c :: tokensWith fuel cs
  | fuel + 1, c :: cs => .plain c :: tokensWith fuel cs

/-- The parts of the text of a pattern. -/
def tokens (source : String) : List Token := tokensWith source.length source.toList

/-! ## Writing the parts again -/

/-- The number that digits stand for: 0 if they are not all ASCII or the
number does not fit 64 bits. -/
def groupNumber (digits : List Char) : Nat :=
  let n := digits.foldl (fun n c => n * 10 + (c.toNat - '0'.toNat)) 0
  if digits.all Char.isDigit && n < 0x10000000000000000 then n else 0

/-- The text of a part, with references moved by `offset`. -/
def Token.render (offset : Nat) : Token → String
  | plain c => String.singleton c
  | charClass cs => String.ofList cs
  | capture => "("
  | special => "(?"
  | reference digits => "\\" ++ toString (groupNumber digits + offset)
  | escape c => String.ofList ['\\', c]

/-- How many groups open in a row of parts. -/
def captures (ts : List Token) : Nat := ts.count .capture

/-- The text of a pattern as a group, when so many groups come before what is
inside it. -/
def wrap (offset : Nat) (ts : List Token) : String :=
  "(" ++ String.join (ts.map (Token.render offset)) ++ ")"

/-! ## Joining -/

/-- The joined text, and for each pattern the number of its group. -/
structure Joined where
  source : String
  groupStarts : List Nat
  deriving DecidableEq, Repr

/-- The texts of the groups and their numbers, when `before` groups come
before the first. -/
def wrapAll : Nat → List String → List (String × Nat)
  | _, [] => []
  | before, source :: sources =>
    let ts := tokens source
    (wrap (before + 1) ts, before + 1) :: wrapAll (before + 1 + captures ts) sources

/-- Joins patterns into one. -/
def join (sources : List String) : Joined :=
  let parts := wrapAll 0 sources
  { source := "|".intercalate (parts.map (·.1)), groupStarts := parts.map (·.2) }

end Highlighting.Alternation
