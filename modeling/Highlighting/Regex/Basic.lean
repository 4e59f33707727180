-- Regular expressions, as trees. A tree says what to match and in which
-- order the ways to match are tried. Groups are numbered from 1 in the order
-- in which they open, with or without a name.
import Highlighting.Regex.CharSet

namespace Highlighting

/-- A place test that takes no characters. -/
inductive Regex.Anchor where
  /-- The start of the text, or after a line end that more text follows. -/
  | lineStart
  /-- The end of the text, or before a line end. -/
  | lineEnd
  | textStart
  | textEnd
  /-- The end of the text, or before a line end that closes it. -/
  | lastLineEnd
  /-- Where the search began. -/
  | searchStart
  /-- Between a word character and another. -/
  | wordEdge (word : Regex.CharSet)
  | notWordEdge (word : Regex.CharSet)
  /-- Between two units of the text, such as a letter with its marks. -/
  | segmentEdge
  | notSegmentEdge
  deriving DecidableEq, Repr

/-- How a group is called from elsewhere in the expression. -/
inductive Regex.GroupRef where
  | number (n : Nat)
  | name (s : String)
  deriving DecidableEq, Repr

/-- A regular expression. -/
inductive Regex where
  /-- Matches without taking a character. -/
  | empty
  /-- Never matches. -/
  | fail
  /-- Takes one character of a set. -/
  | set (s : Regex.CharSet)
  /-- Takes a text that equals `cs` up to case. -/
  | folded (cs : List Char)
  | seq (a b : Regex)
  /-- Tries `a` first, then `b`. -/
  | alt (a b : Regex)
  /-- Repeats `a` at least `min` and at most `max` times: as often as it can
  if `greedy`, as rarely as it can if not. -/
  | loop (a : Regex) (min : Nat) (max : Option Nat) (greedy : Bool)
  /-- Records what `a` takes as group `n`. -/
  | group (n : Nat) (a : Regex)
  /-- The first way in which `a` matches, and no other. -/
  | atomic (a : Regex)
  /-- Looks ahead without taking characters. -/
  | ahead (negated : Bool) (a : Regex)
  /-- Looks at the `width` characters before the place. -/
  | behind (negated : Bool) (width : Nat) (a : Regex)
  | anchor (a : Regex.Anchor)
  /-- Takes again what one of the groups took; the later groups come first. -/
  | backref (groups : List Nat) (anyCase : Bool)
  /-- Matches if one of the groups took part. -/
  | matched (groups : List Nat)
  /-- Matches as the group does that it names. -/
  | call (target : Regex.GroupRef)
  /-- Moves the start of the whole match to this place. -/
  | keep
  /-- Goes on with `yes` after the first match of `test`, and with `no` if
  there is none. -/
  | ifElse (test yes no : Regex)
  /-- Takes a text in which `a` matches nowhere, as long as it can. -/
  | absent (a : Regex)
  deriving DecidableEq, Repr

namespace Regex

/-- The expression that matches the parts one after another. -/
def ofList : List Regex → Regex
  | [] => empty
  | [r] => r
  | r :: rs => seq r (ofList rs)

/-- The expression that tries the branches in order. -/
def ofBranches : List Regex → Regex
  | [] => empty
  | [r] => r
  | r :: rs => alt r (ofBranches rs)

/-- The body of group `n`. -/
def groupBody? (n : Nat) : Regex → Option Regex
  | group m a => if m = n then some a else groupBody? n a
  | seq a b | alt a b => groupBody? n a <|> groupBody? n b
  | loop a .. | atomic a | ahead _ a | behind _ _ a | absent a => groupBody? n a
  | ifElse a b c => groupBody? n a <|> groupBody? n b <|> groupBody? n c
  | _ => none

/-- The groups called in an expression, in the order of the text. -/
def calls : Regex → List GroupRef
  | call t => [t]
  | seq a b | alt a b => a.calls ++ b.calls
  | group _ a | loop a .. | atomic a | ahead _ a | behind _ _ a | absent a => a.calls
  | ifElse a b c => a.calls ++ b.calls ++ c.calls
  | _ => []

end Regex

end Highlighting
