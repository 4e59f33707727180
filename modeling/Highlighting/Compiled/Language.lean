-- The form of a grammar that is ready to scan with: a row of modes, the root
-- first, that refer to each other by their index. A mode that contains itself
-- is then a cycle through the indices.
import Highlighting.Keyword
import Highlighting.Pattern.Terminators

namespace Highlighting

/-- What becomes of the text that is collected in a mode. -/
inductive Dispatch where
  /-- It stays text. -/
  | plain
  /-- It is split into lexemes, which are looked up in a table. -/
  | keywords (table : KeywordTable) (lexemes : Pattern)
  /-- It is highlighted as another language. -/
  | embedded (language : SubLanguage)
  deriving DecidableEq, Repr

/-- A mode that is ready to scan with. -/
structure CompiledMode where
  className : Option String
  dispatch : Dispatch
  /-- The text of the pattern at which it begins. The root has none, and what
  follows the root. -/
  begins : Option String
  /-- Whether it begins at keywords. -/
  byKeywords : Bool
  /-- The pattern that is tried where the mode may end. -/
  ends : Option Pattern
  /-- Its own end joined with the ends that it takes over from around it. -/
  terminatorEnd : String
  endsWithParent : Bool
  endsParent : Bool
  excludeBegin : Bool
  excludeEnd : Bool
  returnBegin : Bool
  returnEnd : Bool
  skip : Bool
  endSameAsBegin : Bool
  relevance : Nat
  contains : List Nat := []
  starts : Option Nat := none
  terminators : Terminators := .empty
  deriving DecidableEq, Repr

namespace CompiledMode

/-- The name of the mode in messages. -/
def displayName (m : CompiledMode) : String := m.className.getD "<unnamed>"

def isEmbedded (m : CompiledMode) : Bool :=
  match m.dispatch with
  | .embedded _ => true
  | _ => false

end CompiledMode

/-- A language that is ready to scan with. -/
structure CompiledLanguage where
  caseInsensitive : Bool
  modes : Array CompiledMode
  deriving DecidableEq, Repr

/-- The mode with an index. -/
def CompiledLanguage.mode? (l : CompiledLanguage) (id : Nat) : Option CompiledMode := l.modes[id]?

end Highlighting
