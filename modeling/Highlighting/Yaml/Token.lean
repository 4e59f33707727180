-- The tokens of a YAML text, and what can be wrong with such a text.

namespace Highlighting.Yaml

/-- Why a text is not one YAML document that can be used. -/
inductive Error where
  /-- A character that may not stand in a document. -/
  | character
  /-- A character that starts no token. -/
  | token
  /-- A key without its colon, or a colon, dash or question mark out of place. -/
  | indicator
  /-- A tab where spaces have to indent. -/
  | tab
  | directive
  | anchor
  | tag
  /-- A quoted or block text that is not well formed. -/
  | scalar
  /-- A token that does not continue the node it stands in. -/
  | node
  /-- More than one document. -/
  | documents
  /-- An alias of an anchor that is not there. -/
  | unknownAlias
  /-- Aliases that repeat too much. -/
  | repetition
  deriving DecidableEq, Repr

/-- How a scalar is written. -/
inductive Style where
  | plain
  | quoted
  | literal
  | folded
  deriving DecidableEq, Repr

/-- A token. Indentation has become explicit: a block starts and ends. -/
inductive Token where
  | version (major minor : Nat)
  | tagHandle (handle start : String)
  | documentStart
  | documentEnd
  | blockListStart
  | blockMapStart
  | blockEnd
  | flowListStart
  | flowListEnd
  | flowMapStart
  | flowMapEnd
  | blockEntry
  | flowEntry
  | key
  | value
  | aliasOf (name : String)
  | anchor (name : String)
  | tag (handle suffix : String)
  | scalar (text : String) (style : Style)
  deriving DecidableEq, Repr

/-! ## Characters -/

/-- A space or a tab. -/
def isBlank (c : Char) : Bool := c == ' ' || c == '\t'

/-- A character that ends a line. -/
def isBreak (c : Char) : Bool :=
  c == '\n' || c == '\r' || c == '\u0085' || c == '\u2028' || c == '\u2029'

/-- A character of a name: of an anchor, a directive or a tag handle. -/
def isNameChar (c : Char) : Bool := c.isAlphanum || c == '_' || c == '-'

/-- A character that may stand in a document. -/
def isAllowed (c : Char) : Bool :=
  c == '\t' || c == '\n' || c == '\r' || (' ' ≤ c && c ≤ '~') || c == '\u0085' ||
    ('\u00a0' ≤ c && c ≠ '\ufffe' && c ≠ '\uffff')

/-- Repeats a step until it gives a result, `fuel` times at most. -/
def iterate {σ β : Type} (step : σ → Except Error (σ ⊕ β)) : Nat → σ → Except Error β
  | 0, _ => .error .token
  | fuel + 1, s => do
    match ← step s with
    | .inl s => iterate step fuel s
    | .inr b => return b

end Highlighting.Yaml
