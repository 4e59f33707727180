-- The modes that most grammars share. A grammar refers to them by name.
import Highlighting.Grammar.Mode

namespace Highlighting.CommonMode

/-! ## Patterns -/

def identifier : String := r"[a-zA-Z]\w*"

def underscoreIdentifier : String := r"[a-zA-Z_]\w*"

def number : String := r"\b\d+(\.\d+)?"

/-- A number as many languages write it: hexadecimal, or with a fraction and
an exponent. -/
def cNumber : String := r"(-?)(\b0[xX][a-fA-F0-9]+|(\b\d+(\.\d*)?|\.\d+)([eE][-+]?\d+)?)"

def binaryNumber : String := r"\b(0b[01]+)"

/-- English words that make it likely that a text is a comment. -/
def phrase : String :=
  r"\b(a|an|the|are|I'm|isn't|don't|doesn't|won't|but|just|should|pretty|simply|enough|gonna|going" ++
    r"|wtf|so|such|will|you|your|they|like|more)\b"

def cssUnit : String :=
  "(%|em|ex|ch|rem|vw|vh|vmin|vmax|cm|mm|in|pt|pc|px|deg|grad|rad|turn|s|ms|Hz|kHz|dpi|dpcm|dppx)?"

/-! ## Modes -/

/-- A backslash with the character after it. -/
def backslashEscape : Mode := { begins := some r"\\[\s\S]", relevance := some 0 }

/-- A string between two equal quotes. -/
def quoted (quote : String) : Mode where
  className := some "string"
  begins := some quote
  ends := some quote
  illegal := some r"\n"
  contains := [.inline backslashEscape]

def phrasalWords : Mode := { begins := some phrase }

/-- A label such as `TODO:` in a comment. -/
def docTag : Mode where
  className := some "doctag"
  begins := some "(?:TODO|FIXME|NOTE|BUG|XXX):"
  relevance := some 0

/-- A comment between two patterns. -/
def comment (begins ends : String) : Mode where
  className := some "comment"
  begins := some begins
  ends := some ends
  contains := [.inline phrasalWords, .inline docTag]

/-- A region of a class that one pattern describes, of no relevance. -/
def token (className begins : String) : Mode where
  className := some className
  begins := some begins
  relevance := some 0

/-- A regular expression between slashes. -/
def regexLiteral : Mode where
  className := some "regexp"
  begins := some "/"
  ends := some "/[gimuy]*"
  illegal := some r"\n"
  contains := [
    .inline backslashEscape,
    .inline {
      begins := some r"\["
      ends := some r"\]"
      relevance := some 0
      contains := [.inline backslashEscape] }]

/-- A name after a dot, which is no title. -/
def methodGuard : Mode where
  begins := some (r"\.\s*" ++ underscoreIdentifier)
  relevance := some 0

/-- The shared modes, by name. -/
def all : List (String × Mode) := [
  ("backslash_escape", backslashEscape),
  ("apos_string", quoted "'"),
  ("quote_string", quoted "\""),
  ("phrasal_words", phrasalWords),
  ("doctag", docTag),
  ("c_line_comment", comment "//" "$"),
  ("c_block_comment", comment r"/\*" r"\*/"),
  ("hash_comment", comment "#" "$"),
  ("number", token "number" number),
  ("c_number", token "number" cNumber),
  ("binary_number", token "number" binaryNumber),
  ("css_number", token "number" (number ++ cssUnit)),
  ("regexp", regexLiteral),
  ("title", token "title" identifier),
  ("underscore_title", token "title" underscoreIdentifier),
  ("method_guard", methodGuard)]

/-- The shared mode with a name. -/
def find? (name : String) : Option Mode := all.lookup name

/-- The names of the shared modes. -/
def names : List String := all.map (·.1)

end Highlighting.CommonMode
