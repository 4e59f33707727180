-- Keyword tables. A declaration of keywords is flattened into entries: a
-- word with its class and its score. A word may carry a score (`word|3`).
-- Without one, words that occur in every language score 0 and others 1.
import Highlighting.Grammar.Mode
import Highlighting.Text
import Highlighting.Unicode.Lowercase

namespace Highlighting

/-- What a table says of a word. -/
structure Keyword where
  className : String
  relevance : Nat
  deriving DecidableEq, Repr

/-- The words of a mode. Each word stands once, and the last one declared
stands first. -/
structure KeywordTable where
  entries : List (String × Keyword)
  caseInsensitive : Bool
  deriving DecidableEq, Repr

namespace KeywordTable

/-- Words that say nothing about the language. -/
def commonWords : List String := ["of", "and", "for", "in", "not", "or", "if", "then"]

/-- The class of words that are declared without one. -/
def defaultClass : String := "keyword"

/-- The score of a word that declares none. -/
def defaultRelevance (word : String) : Nat :=
  if commonWords.contains (Unicode.lower word) then 0 else 1

/-- The word and the score of one entry of a declaration. -/
def readEntry (entry : String) : String × Nat :=
  match Text.splitOnce '|' entry with
  | some (word, score) => (word, (Text.natBelow? 0x100000000 score).getD (defaultRelevance word))
  | none => (entry, defaultRelevance entry)

/-- Puts a word into the table, in place of an earlier one. -/
def insert (t : KeywordTable) (word : String) (k : Keyword) : KeywordTable :=
  { t with entries := (word, k) :: t.entries.filter (·.1 != word) }

/-- Puts the words of one class into the table. -/
def addClass (t : KeywordTable) (className words : String) : KeywordTable :=
  let words := if t.caseInsensitive then Unicode.lower words else words
  (Text.words words).foldl (fun t entry =>
    let (word, relevance) := readEntry entry
    t.insert word { className, relevance }) t

/-- The table of a declaration. -/
def ofKeywords (ks : Keywords) (caseInsensitive : Bool) : KeywordTable :=
  let t : KeywordTable := ⟨[], caseInsensitive⟩
  match ks with
  | .words ws => t.addClass defaultClass ws
  | .classes cs => cs.foldl (fun t (className, ws) => t.addClass className ws) t

/-- What the table says of a lexeme. -/
def get? (t : KeywordTable) (lexeme : String) : Option Keyword :=
  t.entries.lookup (if t.caseInsensitive then Unicode.lower lexeme else lexeme)

/-- The number of words. -/
def size (t : KeywordTable) : Nat := t.entries.length

def isEmpty (t : KeywordTable) : Bool := t.entries.isEmpty

end KeywordTable

end Highlighting
