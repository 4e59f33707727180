-- One step of a scan: the next terminator of the innermost mode is found and
-- handled. A terminator opens a mode, closes modes, or is text after all.
import Highlighting.Scan.Flush

namespace Highlighting.Scan

namespace State

/-! ## Opening and closing modes -/

/-- Opens a mode, and an element for it if it has a class name. -/
def enter (s : State) (c : Context) (id : Nat) (bound : Option Pattern) : State :=
  match (c.language.mode? id).bind CompiledMode.className with
  | some className =>
    { s with
      tree := s.tree.openElement className
      frames := { mode := id, bound, opened := true } :: s.frames }
  | none => { s with frames := { mode := id, bound } :: s.frames }

/-- Closes the innermost mode and counts its weight. -/
def leave (s : State) (c : Context) : State :=
  match s.frames with
  | [] => s
  | f :: frames =>
    let s := { s with frames, tree := if f.opened then s.tree.close else s.tree }
    match c.modeOf? f with
    | none => s
    | some m => if f.resumed || m.skip || m.isEmbedded then s else s.score m.relevance

/-- Closes so many modes. -/
def leaveAll (s : State) (c : Context) : Nat → State
  | 0 => s
  | n + 1 => (s.leave c).leaveAll c n

end State

/-- How many frames, after the first, a mode closes with itself: those of
modes that end the mode around them. The root is never closed. -/
def parentsEnded (c : Context) : List Frame → Nat
  | f :: g :: h :: rest =>
    if (c.modeOf? f).any CompiledMode.endsParent then parentsEnded c (g :: h :: rest) + 1 else 0
  | _ => 0

/-- How many frames an end at `pos` closes: the innermost is tried first, and
a mode that ends with its parent passes the question on. -/
def closedBy? (c : Context) (pos : Nat) : List Frame → Option Nat
  | f :: g :: rest =>
    match c.modeOf? f with
    | none => none
    | some m =>
      if ((f.bound <|> m.ends).any fun p => p.matchesAt c.text pos) then
        some (parentsEnded c (f :: g :: rest) + 1)
      else if m.endsWithParent then (closedBy? c pos (g :: rest)).map (· + 1)
      else none
  | _ => none

/-! ## Handling a terminator -/

/-- What a step leads to. -/
inductive Outcome where
  | next (s : State)
  /-- The text is used up. -/
  | done (s : State)

namespace State

/-- Takes the character at `pos` as text, and goes on after it. -/
def forceChar (s : State) (c : Context) (pos : Nat) : Outcome :=
  match c.text[pos]? with
  | some ch => .next { s.push (String.singleton ch) with cursor := pos + 1 }
  | none => .done { s with cursor := c.text.size }

/-- Opens the mode with index `id`. -/
def beginMode (s : State) (c : Context) (id : Nat) (t : Terminator) : Except HighlightError State := do
  let some m := c.language.mode? id | return s
  let lexeme := c.slice t.start t.stop
  let bound ← if m.endSameAsBegin then
      match Pattern.literal lexeme c.language.caseInsensitive with
      | .ok p => pure (some p)
      | .error e => throw (.grammar (.invalidPattern e))
    else pure none
  let s ←
    if m.skip then pure (s.push lexeme)
    else do
      let s ← (if m.excludeBegin then s.push lexeme else s).flush c
      pure (if m.returnBegin || m.excludeBegin then s else s.push lexeme)
  return { s.enter c id bound with cursor := if m.returnBegin then t.start else t.stop }

/-- The frame that a number of closings leaves last. -/
def lastClosed? (s : State) (n : Nat) : Option Frame := s.frames[n - 1]?

/-- Closes `n` modes at an end, and opens what follows the outermost of them. -/
def endModes (s : State) (c : Context) (n : Nat) (t : Terminator) : Except HighlightError State := do
  let some origin := s.top? c | return s
  let lexeme := c.slice t.start t.stop
  let closed := s.lastClosed? n
  let s ←
    if origin.skip then pure (s.push lexeme)
    else do
      let s ← (if origin.returnEnd || origin.excludeEnd then s else s.push lexeme).flush c
      pure (if origin.excludeEnd then s.push lexeme else s)
  let s := s.leaveAll c n
  let s := match closed with
    | none => s
    | some f =>
      match c.modeOf? f with
      | none => s
      | some m =>
        match m.starts with
        | none => s
        | some next => s.enter c next (if m.endSameAsBegin then f.bound <|> m.ends else none)
  return { s with cursor := if origin.returnEnd then t.start else t.stop }

/-- Takes the lexeme of a terminator as text. An empty one takes a character
with it. -/
def asText (s : State) (c : Context) (t : Terminator) : Outcome :=
  if t.start < t.stop then .next { s.push (c.slice t.start t.stop) with cursor := t.stop }
  else s.forceChar c t.start

/-- Whether a mode began here and would end here at once with nothing in it. -/
def isDegenerate (s : State) (t : Terminator) : Bool :=
  match s.last with
  | some last =>
    (match last.rule with
      | .begins _ => true
      | _ => false) &&
      t.rule == .ends && last.start == t.start && !(t.start < t.stop)
  | none => false

/-- Handles a terminator. -/
def handle (s : State) (c : Context) (t : Terminator) : Except HighlightError Outcome :=
  let s := s.push (c.slice s.cursor t.start)
  if s.isDegenerate t then .ok (s.forceChar c t.start)
  else
    let s := { s with last := some t }
    match t.rule with
    | .begins id => do return .next (← s.beginMode c id t)
    | .ends =>
      match closedBy? c t.start s.frames with
      | some n => do return .next (← s.endModes c n t)
      | none => .ok (s.asText c t)
    | .illegal =>
      match c.illegals with
      | .ignore => .ok (s.asText c t)
      | _ =>
        .error (.illegal (c.slice t.start t.stop) (((s.top? c).map CompiledMode.displayName).getD ""))

/-- The next terminator of the innermost mode. -/
def nextTerminator? (s : State) (c : Context) : Option Terminator :=
  (s.top? c).bind fun m => m.terminators.find c.text s.cursor

/-- One step of the scan. It is done when no terminator is left. -/
def step (s : State) (c : Context) : Except HighlightError Outcome :=
  match s.nextTerminator? c with
  | some t => s.handle c t
  | none => .ok (.done s)

end State

end Highlighting.Scan
