-- What can go wrong when a text is highlighted.
import Highlighting.Grammar.Error

namespace Highlighting

/-- Why a text cannot be highlighted. -/
inductive HighlightError where
  | unknownLanguage (name : String)
  /-- A lexeme that may not occur in a mode. -/
  | illegal (lexeme mode : String)
  | grammar (e : GrammarError)
  /-- The scan never ends, or takes more steps than are followed. -/
  | stepLimit
  deriving DecidableEq, Repr

/-- The wording of each cause. -/
def HighlightError.message : HighlightError → String
  | unknownLanguage name => "Unknown language: `" ++ name ++ "` is not registered"
  | illegal lexeme mode => "Illegal lexeme \"" ++ lexeme ++ "\" for mode \"" ++ mode ++ "\""
  | grammar e => e.message
  | stepLimit => "The scan did not end"

/-- What to do when a lexeme is met that may not occur. -/
inductive Illegals where
  /-- Take it as text and go on. -/
  | ignore
  /-- Give up on the language: the whole text stays as it is. -/
  | fallback
  /-- Fail. -/
  | raise
  deriving DecidableEq, Repr

namespace Illegals

/-- The name of a policy. -/
def name : Illegals → String
  | ignore => "ignore"
  | fallback => "fallback"
  | raise => "raise"

/-- The policies. -/
def all : List Illegals := [ignore, fallback, raise]

end Illegals

/-! ## Relevance -/

/-- The greatest score. -/
def relevanceLimit : Nat := 0xffffffff

/-- Adds scores. The sum stops at the greatest one. -/
def addRelevance (a b : Nat) : Nat := min (a + b) relevanceLimit

end Highlighting
