-- What can be wrong with a grammar.
import Highlighting.Pattern.Basic

namespace Highlighting

/-- Why a grammar cannot be used. -/
inductive GrammarError where
  | invalidPattern (e : InvalidPattern)
  /-- A reference that names no definition and no common mode. -/
  | unknownMode (name : String)
  /-- References lead on without an end, or deeper than is followed. -/
  | tooDeep
  deriving DecidableEq, Repr

/-- The wording for a pattern that was refused. -/
def InvalidPattern.message (e : InvalidPattern) : String :=
  "Invalid pattern `" ++ e.source ++ "`: Oniguruma error: " ++ e.cause.message

/-- The wording of each cause. -/
def GrammarError.message : GrammarError → String
  | invalidPattern e => e.message
  | unknownMode name => "Unknown mode reference `" ++ name ++ "`"
  | tooDeep => "Mode references are nested too deeply"

end Highlighting
