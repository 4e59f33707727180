-- Highlighting a text: as a named language, or as the candidate that fits
-- best. A scan reaches embedded languages through the same functions, up to a
-- fixed depth.
import Highlighting.Registry
import Highlighting.Scan.Run

namespace Highlighting

/-- What highlighting gives. -/
structure Highlighted where
  /-- The language, as it was asked for; `none` if no language fits. -/
  language : Option String := none
  relevance : Nat := 0
  nodes : List Node := []
  /-- Whether a language was given up at an illegal lexeme. -/
  illegal : Bool := false
  /-- The runner-up of a detection. -/
  secondBest : Option Highlighted := none

namespace Highlighted

/-- A text as it stands. -/
def plain (text : String) : Highlighted := { nodes := Node.plain text }

/-- The text of the nodes. -/
def text (h : Highlighted) : String := Node.textOfAll h.nodes

end Highlighted

/-! ## One language -/

/-- Highlights a text as a language, from where an earlier part stopped, and
says where it stopped itself. -/
def highlightWith (r : Registry) (lead : String) (host : Option Scan.Host) (name text : String)
    (illegals : Illegals) (resume : Option Scan.Continuation) :
    Except HighlightError (Highlighted × Option Scan.Continuation) :=
  match r.resolve? name with
  | none => .error (.unknownLanguage name)
  | some language =>
    match language.compiled.get with
    | .error e => .error (.grammar e)
    | .ok compiled =>
      let context : Scan.Context := { host, language := compiled, text := text.toList.toArray, illegals }
      match Scan.scan context lead resume with
      | .ok scanned =>
        .ok ({ language := some name, relevance := scanned.relevance, nodes := scanned.nodes },
          some scanned.continuation)
      | .error (.illegal lexeme mode) =>
        if illegals = .fallback then .ok ({ Highlighted.plain text with illegal := true }, none)
        else .error (.illegal lexeme mode)
      | .error e => .error e

/-! ## Detection -/

/-- The best two of some results, the earlier one first among equals. Results
without relevance count for nothing. -/
structure Ranking where
  best : Highlighted
  second : Highlighted := {}

/-- Puts one more result in its rank. -/
def Ranking.add (k : Ranking) (h : Highlighted) : Ranking :=
  if k.best.relevance < h.relevance then { best := h, second := k.best }
  else if k.second.relevance < h.relevance then { k with second := h }
  else k

/-- The best result, with the runner-up if it has a language. -/
def Ranking.result (k : Ranking) : Highlighted :=
  if k.second.language.isSome then { k.best with secondBest := some k.second } else k.best

/-- Highlights a text as each candidate and keeps the best two. Without
candidates every registered language is tried. Names that are not registered
are passed over. -/
def detectWith (r : Registry) (lead : String) (host : Option Scan.Host) (text : String)
    (candidates : Option (List String)) : Except HighlightError Highlighted := do
  let names := (candidates.getD r.names).filter r.isRegistered
  let ranking ← names.foldlM (fun (k : Ranking) name => do
    let (h, _) ← highlightWith r lead host name text .fallback none
    return k.add { h with language := some name }) { best := .plain text }
  return ranking.result

/-! ## Embedding -/

/-- How deep languages may be embedded in each other. -/
def embeddingLimit : Nat := 8

/-- The host of a scan that may still embed so many levels. -/
def hostFor (r : Registry) (lead : String) : Nat → Option Scan.Host
  | 0 => none
  | n + 1 => some {
      isRegistered := r.isRegistered
      embed := fun name text resume => do
        let (h, continuation) ← highlightWith r lead (hostFor r lead n) name text .ignore resume
        return { relevance := h.relevance, nodes := h.nodes, continuation }
      detect := fun candidates text => do
        let subset := if candidates.isEmpty then none else some candidates
        let h ← detectWith r lead (hostFor r lead n) text subset
        return h.language.map fun name =>
          (name, { relevance := h.relevance, nodes := h.nodes, continuation := none }) }

/-- The host of a scan that is itself embedded so deep. -/
def hostAt (r : Registry) (lead : String) (depth : Nat) : Option Scan.Host :=
  hostFor r lead (embeddingLimit - depth)

/-! ## The two operations -/

/-- What class names start with if nothing else is asked for. -/
def defaultLead : String := "hljs-"

/-- How to highlight as one language. -/
structure HighlightOptions where
  lead : String := defaultLead
  illegals : Illegals := .ignore
  deriving DecidableEq, Repr

/-- How to detect the language. -/
structure DetectOptions where
  lead : String := defaultLead
  /-- The candidates in order; `none` tries every registered language. -/
  subset : Option (List String) := none
  deriving DecidableEq, Repr

namespace Registry

/-- Highlights a text as the language with a name or alias. -/
def highlight (r : Registry) (name text : String) (o : HighlightOptions) :
    Except HighlightError Highlighted :=
  (highlightWith r o.lead (hostAt r o.lead 0) name text o.illegals none).map (·.1)

/-- Highlights a text as the candidate that fits best. -/
def detect (r : Registry) (text : String) (o : DetectOptions) : Except HighlightError Highlighted :=
  detectWith r o.lead (hostAt r o.lead 0) text o.subset

/-- Scans a text with a language, embedded so deep, from where an earlier
part stopped. -/
def scan (r : Registry) (lead : String) (depth : Nat) (language : CompiledLanguage)
    (text : String) (illegals : Illegals) (resume : Option Scan.Continuation) :
    Except HighlightError Scan.Scanned :=
  Scan.scan { host := hostAt r lead depth, language, text := text.toList.toArray, illegals } lead resume

end Registry

end Highlighting
