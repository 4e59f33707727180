-- The terminators of a mode: where a child begins, where the mode ends, and
-- what may not occur in it. They are joined into one pattern, and the group
-- that took part tells which of them was met.
import Highlighting.Pattern.Alternation
import Highlighting.Pattern.Offset

namespace Highlighting

/-- What a terminator means for the mode. -/
inductive Rule where
  /-- The child with this index begins. -/
  | begins (mode : Nat)
  /-- The mode ends, or a mode around it with which it ends. -/
  | ends
  /-- Text that may not occur in the mode. -/
  | illegal
  deriving DecidableEq, Repr

/-- A terminator that was met, from `start` to `stop`. -/
structure Terminator where
  start : Nat
  stop : Nat
  rule : Rule
  deriving DecidableEq, Repr

/-- The joined terminators of a mode: the pattern, if there are any, and the
group of each rule. -/
structure Terminators where
  pattern : Option Pattern
  rules : List (Nat × Rule)
  deriving DecidableEq, Repr

namespace Terminators

/-- No terminators. -/
def empty : Terminators := ⟨none, []⟩

/-- Joins the patterns of the rules. -/
def ofRules (rules : List (Rule × String)) (anyCase : Bool) : Except InvalidPattern Terminators :=
  if rules.isEmpty then .ok empty
  else do
    let joined := Alternation.join (rules.map (·.2))
    let pattern ← Pattern.ofSource joined.source anyCase
    return ⟨some pattern, joined.groupStarts.zip (rules.map (·.1))⟩

/-- The next terminator at `start` or later. -/
def find (t : Terminators) (text : Array Char) (start : Nat) : Option Terminator := do
  let pattern ← t.pattern
  let found ← pattern.search text start
  let (_, rule) ← t.rules.find? fun (group, _) => (found.groups[group - 1]?).join.isSome
  return ⟨found.start, found.stop, rule⟩

/-- The text of the joined pattern. -/
def source (t : Terminators) : Option String := t.pattern.map Pattern.source

def isEmpty (t : Terminators) : Bool := t.rules.isEmpty

/-- The next terminator from a byte offset on, with its place in bytes. -/
def findBytes (t : Terminators) (text : Array Char) (start : Nat) :
    Option (Nat × Nat × Terminator) := do
  let (n, _) ← charOffset text.toList start
  let m ← t.find text n
  return (byteOffset text m.start, byteOffset text m.stop, m)

end Terminators

end Highlighting
