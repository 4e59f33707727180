-- The state of a scan: where the cursor stands, which modes are open, the
-- text collected since the last flush, and what has been put out so far.
import Highlighting.Compiled.Language
import Highlighting.Error
import Highlighting.Tree.Builder

namespace Highlighting.Scan

/-- An open mode. -/
structure Frame where
  mode : Nat
  /-- The end that was bound when it began, in place of the mode's own. -/
  bound : Option Pattern := none
  /-- Whether an element was opened for it in this scan. -/
  opened : Bool := false
  /-- Whether an earlier scan began it. Its weight was counted there. -/
  resumed : Bool := false
  deriving DecidableEq, Repr

/-- The frame of the root mode. -/
def rootFrame : Frame := { mode := 0 }

/-- Where a scan stopped: the open modes, the innermost first. -/
structure Continuation where
  frames : List Frame
  deriving DecidableEq, Repr

/-- The number of open modes. -/
def Continuation.depth (c : Continuation) : Nat := c.frames.length

/-- What a scan gives. -/
structure Scanned where
  nodes : List Node
  relevance : Nat
  continuation : Continuation

/-- What highlighting a text as an embedded language gives. -/
structure Embedded where
  relevance : Nat
  nodes : List Node
  /-- Where the embedded scan stopped. -/
  continuation : Option Continuation

/-- How a scan reaches other languages. -/
structure Host where
  isRegistered : String → Bool
  /-- Highlights a text as a named language, from where an earlier part stopped. -/
  embed : String → String → Option Continuation → Except HighlightError Embedded
  /-- Highlights a text as the best of some candidates, and names it. -/
  detect : List String → String → Except HighlightError (Option (String × Embedded))

/-- What stays the same during a scan. Without a host, embedded languages
stay text. -/
structure Context where
  host : Option Host
  language : CompiledLanguage
  text : Array Char
  illegals : Illegals

/-- What changes during a scan. -/
structure State where
  cursor : Nat := 0
  /-- The open modes, the innermost first. The last one is the root. -/
  frames : List Frame
  /-- The text since the last flush. -/
  buffer : String := ""
  tree : Tree.Builder
  relevance : Nat := 0
  /-- Where the parts of each embedded language stopped. -/
  continuations : List (String × Continuation) := []
  /-- The last terminator that was handled. -/
  last : Option Terminator := none

/-- The characters of the text from `start` to `stop`. -/
def Context.slice (c : Context) (start stop : Nat) : String :=
  String.ofList (Regex.slice c.text start stop)

/-- The mode of a frame. -/
def Context.modeOf? (c : Context) (f : Frame) : Option CompiledMode := c.language.mode? f.mode

namespace State

/-- The innermost mode. -/
def top? (s : State) (c : Context) : Option CompiledMode := s.frames.head?.bind c.modeOf?

/-- Adds text to the buffer. -/
def push (s : State) (text : String) : State := { s with buffer := s.buffer ++ text }

/-- Adds to the relevance. -/
def score (s : State) (n : Nat) : State := { s with relevance := addRelevance s.relevance n }

end State

end Highlighting.Scan
