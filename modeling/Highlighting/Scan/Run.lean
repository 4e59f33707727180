-- Scanning a text from its start to its end. Nothing bounds the number of steps: a scan that
-- never ends has no result, which `stepLimit` stands for.
import Highlighting.Loop
import Highlighting.Scan.Step

namespace Highlighting.Scan

/-- Takes steps until the scan is done, at most so many. -/
def State.run (c : Context) : (steps : Nat) → State → Except HighlightError State
  | 0, _ => .error .stepLimit
  | n + 1, s => do
    match ← s.step c with
    | .next s => s.run c n
    | .done s => return s

/-- Takes a step, after which the scan goes on or is over. -/
def State.round (c : Context) (s : State) : State ⊕ Except HighlightError State :=
  match s.step c with
  | .ok (.next s) => .inl s
  | .ok (.done s) => .inr (.ok s)
  | .error e => .inr (.error e)

/-- Takes steps until the scan is done; `none` if it never is. -/
def State.outcome? (c : Context) (s : State) : Option (Except HighlightError State) :=
  loop? (State.round c) s

/-- Takes steps until the scan is done, however many. -/
def State.runAll (c : Context) (s : State) : Except HighlightError State :=
  (s.outcome? c).getD (.error .stepLimit)

/-- Puts out the rest of the text and closes what is open. -/
def State.finish (c : Context) (s : State) : Except HighlightError Scanned := do
  let s ← (s.push (c.slice s.cursor c.text.size)).flush c
  let closed := s.leaveAll c (s.frames.length - 1)
  return { nodes := closed.tree.finish, relevance := closed.relevance, continuation := ⟨s.frames⟩ }

/-- The frames that a scan starts with: those of an earlier part, or the root. -/
def startFrames (resume : Option Continuation) : List Frame :=
  match resume with
  | some ⟨f :: fs⟩ => (f :: fs).map fun f => { f with opened := false, resumed := true }
  | _ => [rootFrame]

/-- Scans a text from where an earlier part stopped, if there is one. `run` takes the steps, and
`lead` is what class names start with. -/
def scanBy (run : State → Except HighlightError State) (c : Context) (lead : String)
    (resume : Option Continuation) : Except HighlightError Scanned :=
  let frames := startFrames resume
  if c.text.isEmpty then .ok { nodes := [], relevance := 0, continuation := ⟨frames⟩ }
  else do
    let s ← run { frames, tree := .start lead }
    s.finish c

/-- Scans a text to its end. -/
def scan (c : Context) (lead : String) (resume : Option Continuation) :
    Except HighlightError Scanned :=
  scanBy (State.runAll c) c lead resume

/-- Scans with at most so many steps. -/
def scanWithin (steps : Nat) (c : Context) (lead : String) (resume : Option Continuation) :
    Except HighlightError Scanned :=
  scanBy (State.run c steps) c lead resume

end Highlighting.Scan
