-- Sets of characters, as written by a class such as `[a-z&&[^aeiou]]`. A set
-- is kept as it was put together, and membership is read off its parts.
import Highlighting.Regex.Property
import Highlighting.Unicode.Folding

namespace Highlighting.Regex

/-- A set of characters. -/
inductive CharSet where
  | none
  | single (c : Char)
  /-- Every character from the first to the last. -/
  | range (first last : Char)
  | property (p : Property)
  | union (a b : CharSet)
  | inter (a b : CharSet)
  | compl (a : CharSet)
  /-- The characters that agree with one of the set up to case. -/
  | anyCase (a : CharSet)
  deriving DecidableEq, Repr

namespace CharSet

/-- Whether a character belongs to a set. -/
def contains : CharSet → Char → Bool
  | none, _ => false
  | single d, c => c == d
  | range first last, c => first ≤ c && c ≤ last
  | property p, c => p.holds c
  | union a b, c => a.contains c || b.contains c
  | inter a b, c => a.contains c && b.contains c
  | compl a, c => !a.contains c
  | anyCase a, c => a.contains c || (Unicode.caseVariants c).any a.contains

/-- Every character. -/
def all : CharSet := property .any

/-- The characters that have a property, or with `negated` those that lack it. -/
def ofProperty (p : Property) (negated : Bool) : CharSet :=
  if negated then compl (property p) else property p

/-- A property that holds for no character beyond ASCII. -/
def asciiOnly (p : Property) : CharSet := inter (property p) (property .ascii)

@[simp] theorem contains_single (c d : Char) : (single d).contains c = (c == d) := rfl

@[simp] theorem contains_union (a b : CharSet) (c : Char) :
    (union a b).contains c = (a.contains c || b.contains c) := rfl

@[simp] theorem contains_inter (a b : CharSet) (c : Char) :
    (inter a b).contains c = (a.contains c && b.contains c) := rfl

@[simp] theorem contains_compl (a : CharSet) (c : Char) :
    (compl a).contains c = !a.contains c := rfl

end CharSet

end Highlighting.Regex
