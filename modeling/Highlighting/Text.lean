-- Text as the library splits it: at white space, and into whole numbers.
import Highlighting.Unicode.Property

namespace Highlighting.Text

/-- The parts of a row of characters between those that satisfy `p`, empty
parts left out. `part` is the part being read, its last character first. -/
def splitRuns (p : Char → Bool) (part : List Char) : List Char → List (List Char)
  | [] => if part.isEmpty then [] else [part.reverse]
  | c :: cs =>
    if p c then (if part.isEmpty then splitRuns p [] cs else part.reverse :: splitRuns p [] cs)
    else splitRuns p (c :: part) cs

/-- The words of a text, which white space separates. -/
def words (s : String) : List String := (splitRuns Unicode.isSpace [] s.toList).map String.ofList

/-- The parts of a text before and after the first `sep`. -/
def splitOnce (sep : Char) (s : String) : Option (String × String) :=
  let before := s.toList.takeWhile (· != sep)
  match s.toList.drop before.length with
  | [] => none
  | _ :: after => some (String.ofList before, String.ofList after)

/-- The number that a row of ASCII digits stands for; `none` if it is empty
or holds another character. -/
def digits? (cs : List Char) : Option Nat :=
  if cs.isEmpty || !cs.all Char.isDigit then none
  else some (cs.foldl (fun n c => n * 10 + (c.toNat - '0'.toNat)) 0)

/-- The number below `limit` that a text stands for, with an optional plus. -/
def natBelow? (limit : Nat) (s : String) : Option Nat :=
  let cs := match s.toList with
    | '+' :: cs => cs
    | cs => cs
  (digits? cs).filter (· < limit)

end Highlighting.Text
