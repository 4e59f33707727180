-- Patterns: an expression with the text it was read from. A search takes the
-- whole text and a place to start, so that what stands before the place is
-- still seen.
import Highlighting.Regex.Match
import Highlighting.Regex.Reader

namespace Highlighting

open Regex (Place Subject Program ReadError)

/-- A pattern that was refused, with the cause. -/
structure InvalidPattern where
  source : String
  cause : ReadError
  deriving DecidableEq, Repr

/-- A pattern that is ready to match. -/
structure Pattern where
  source : String
  program : Program
  deriving DecidableEq, Repr

namespace Pattern

/-! ## Making patterns -/

/-- Matches at every place: a place is a word edge or it is not. -/
def boundary : String := "\\B|\\b"

/-- Reads a pattern, with letters in either case if `anyCase`. -/
def ofSource (source : String) (anyCase : Bool) : Except InvalidPattern Pattern :=
  match Regex.read source anyCase with
  | .ok program => .ok { source, program }
  | .error cause => .error { source, cause }

/-- The characters that mean something in a pattern. -/
def specials : List Char :=
  ['-', '/', '\\', '^', '$', '*', '+', '?', '.', '(', ')', '|', '[', ']', '\x7b', '\x7d']

def isSpecial (c : Char) : Bool := specials.contains c

/-- The text of a pattern that matches `text` as it stands. -/
def escape (text : String) : String :=
  String.ofList (text.toList.flatMap fun c => if isSpecial c then ['\\', c] else [c])

/-- The pattern that matches `text` as it stands. -/
def literal (text : String) (anyCase : Bool) : Except InvalidPattern Pattern :=
  ofSource (escape text) anyCase

/-! ## Matching -/

/-- A match: where it starts and stops, and what each group took, group 1
first. -/
structure Found where
  start : Nat
  stop : Nat
  groups : List (Option (Nat × Nat))
  deriving DecidableEq, Repr

/-- The body of a called group. Number 0 is the whole expression. -/
def body? (p : Program) : Regex.GroupRef → Option Regex
  | .number 0 => some p.root
  | .number n => p.root.groupBody? n
  | .name s => (p.names.lookup s).bind fun n => p.root.groupBody? n

/-- How a called group matches. Calls nest only so deep: a deeper chain would
call the same group at the same place again. -/
def called (s : Subject) (p : Program) : Nat → Regex.GroupRef → Regex.Matcher
  | 0, _ => fun _ _ => none
  | depth + 1, target =>
    match body? p target with
    | some (r : Regex) => fun q k =>
      match target with
      | .number 0 => Regex.matcher s (called s p depth) r q k
      | .number n => Regex.matcher s (called s p depth) (.group n r) q k
      | .name name =>
        Regex.matcher s (called s p depth) (.group ((p.names.lookup name).getD 0) r) q k
    | none => fun _ _ => none

/-- The match that starts exactly at `pos`. -/
def matchFrom (p : Pattern) (s : Subject) (pos : Nat) : Option Place :=
  let depth := (s.text.size + 1) * (p.program.groups + 1) + 1
  Regex.matcher s (called s p.program depth) p.program.root ⟨pos, pos, []⟩ some

/-- Tries the next `n` places from `pos` on, one after another. -/
def scan (p : Pattern) (s : Subject) : Nat → Nat → Option Place
  | 0, _ => none
  | n + 1, pos =>
    match p.matchFrom s pos with
    | some q => some q
    | none => scan p s n (pos + 1)

/-- The match at a final place. -/
def found (p : Pattern) (q : Place) : Found where
  start := q.start
  stop := q.pos
  groups := (List.range p.program.groups).map fun i => Regex.span? (i + 1) q.marks

/-- The leftmost match at `start` or later. -/
def search (p : Pattern) (text : Array Char) (start : Nat) : Option Found :=
  if text.size < start then none
  else (p.scan ⟨text, start⟩ (text.size + 1 - start) start).map p.found

/-- Whether the pattern matches from `pos`. -/
def matchesAt (p : Pattern) (text : Array Char) (pos : Nat) : Bool :=
  pos ≤ text.size && (p.matchFrom ⟨text, pos⟩ pos).isSome

end Pattern

end Highlighting
