-- Putting out the text that was collected in a mode: as it is, split into
-- keywords, or highlighted as another language.
import Highlighting.Scan.State

namespace Highlighting.Scan

/-! ## Keywords -/

/-- A part of a text that is split into lexemes. -/
inductive Piece where
  | text (value : String)
  | keyword (k : Keyword) (lexeme : String)
  deriving DecidableEq, Repr

/-- Splits a text into lexemes and what stands between them. `done` is where
the last lexeme stopped and `next` where the search goes on; after an empty
lexeme it goes on one character later. The fuel bounds the number of lexemes. -/
def piecesFrom (table : KeywordTable) (lexemes : Pattern) (text : Array Char) :
    (fuel done next : Nat) → List Piece
  | 0, done, _ => [.text (String.ofList (Regex.slice text done text.size))]
  | fuel + 1, done, next =>
    match lexemes.search text next with
    | none => [.text (String.ofList (Regex.slice text done text.size))]
    | some found =>
      let word := String.ofList (Regex.slice text found.start found.stop)
      let piece := match table.get? word with
        | some k => Piece.keyword k word
        | none => .text word
      let next := if found.start < found.stop then found.stop else found.stop + 1
      .text (String.ofList (Regex.slice text done found.start)) :: piece ::
        piecesFrom table lexemes text fuel found.stop next

/-- The pieces of a text. -/
def pieces (table : KeywordTable) (lexemes : Pattern) (text : String) : List Piece :=
  let cs := text.toList.toArray
  piecesFrom table lexemes cs (cs.size + 1) 0 0

/-- Puts out one piece. -/
def State.emit (s : State) : Piece → State
  | .text value => { s with tree := s.tree.addText value }
  | .keyword k lexeme =>
    { s.score k.relevance with tree := s.tree.addKeyword k.className lexeme }

/-! ## Embedded languages -/

/-- Removes the continuation of a language from the list. -/
def eraseContinuation (name : String) (cs : List (String × Continuation)) :
    List (String × Continuation) := cs.filter (·.1 != name)

/-- Puts out what an embedded language gave. Its relevance counts unless the
mode weighs nothing. -/
def State.embed (s : State) (language : String) (weight : Nat) (e : Embedded) : State :=
  let s := if weight = 0 then s else s.score e.relevance
  { s with tree := s.tree.addEmbedded language e.nodes }

/-- Puts out text as an embedded language. It stays text if there is no host,
if the language is not registered, or if no candidate fits. -/
def State.flushEmbedded (s : State) (c : Context) (language : SubLanguage) (weight : Nat)
    (text : String) : Except HighlightError State :=
  let plain := { s with tree := s.tree.addText text }
  match c.host with
  | none => .ok plain
  | some host =>
    match language with
    | .name name =>
      if host.isRegistered name then do
        let e ← host.embed name text (s.continuations.lookup name)
        let rest := eraseContinuation name s.continuations
        let continuations := match e.continuation with
          | some k => (name, k) :: rest
          | none => rest
        return { s with continuations }.embed name weight e
      else .ok plain
    | .candidates names => do
      match ← host.detect names text with
      | some (name, e) => return s.embed name weight e
      | none => return plain

/-! ## Flushing -/

/-- Puts out the buffer as the innermost mode says, and empties it. -/
def State.flush (s : State) (c : Context) : Except HighlightError State :=
  let text := s.buffer
  let s := { s with buffer := "" }
  match s.top? c with
  | none => .ok { s with tree := s.tree.addText text }
  | some m =>
    match m.dispatch with
    | .plain => .ok { s with tree := s.tree.addText text }
    | .keywords table lexemes => .ok ((pieces table lexemes text).foldl State.emit s)
    | .embedded language =>
      if text.isEmpty then .ok s else s.flushEmbedded c language m.relevance text

end Highlighting.Scan
