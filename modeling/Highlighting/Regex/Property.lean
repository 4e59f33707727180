-- Named properties of characters, as a pattern writes them in `\p` and in
-- brackets such as `[:alpha:]`.
import Highlighting.Unicode.Property
import Highlighting.Unicode.Script

namespace Highlighting.Regex

open Highlighting.Unicode

/-- A property that a pattern can ask of a character. -/
inductive Property where
  | any
  | ascii
  | assigned
  | alphanumeric
  | alphabetic
  | blank
  | cased
  | caseIgnorable
  | control
  | digit
  | graphic
  | lowercase
  | printable
  | punctuation
  | space
  | uppercase
  | hexDigit
  | word
  /-- As a word edge sees it. -/
  | wordPart
  /-- One of several general categories. -/
  | category (cs : List Category)
  | script (s : Script)
  deriving DecidableEq, Repr

namespace Property

/-- Whether a character has the property. -/
def holds : Property → Char → Bool
  | any, _ => true
  | ascii, c => isAscii c
  | assigned, c => Category.ofChar c != .cn
  | alphanumeric, c => isAlphanumeric c
  | alphabetic, c => isAlphabetic c
  | blank, c => isBlank c
  | cased, c => isCased c
  | caseIgnorable, c => isCaseIgnorable c
  | control, c => isControl c
  | digit, c => isDigit c
  | graphic, c => isGraphic c
  | lowercase, c => isLowercase c
  | printable, c => isPrintable c
  | punctuation, c => isPunctuation c
  | space, c => isSpace c
  | uppercase, c => isUppercase c
  | hexDigit, c => isHexDigit c
  | word, c => isWord c
  | wordPart, c => isWordPart c
  | category cs, c => cs.contains (Category.ofChar c)
  | script s, c => s.contains c

/-! ## Names -/

/-- The names that a bracket such as `[:alpha:]` may hold. -/
def bracketNames : List (String × Property) := [
  ("alnum", alphanumeric), ("alpha", alphabetic), ("blank", blank), ("cntrl", control),
  ("digit", digit), ("graph", graphic), ("lower", lowercase), ("print", printable),
  ("punct", punctuation), ("space", space), ("upper", uppercase), ("xdigit", hexDigit),
  ("ascii", ascii), ("word", word)]

/-- The names of the general categories, short and long, without separators. -/
def categoryNames : List (String × List Category) := [
  ("l", [.lu, .ll, .lt, .lm, .lo]), ("letter", [.lu, .ll, .lt, .lm, .lo]),
  ("lc", [.lu, .ll, .lt]), ("casedletter", [.lu, .ll, .lt]),
  ("lu", [.lu]), ("uppercaseletter", [.lu]), ("ll", [.ll]), ("lowercaseletter", [.ll]),
  ("lt", [.lt]), ("titlecaseletter", [.lt]), ("lm", [.lm]), ("modifierletter", [.lm]),
  ("lo", [.lo]), ("otherletter", [.lo]),
  ("m", [.mn, .mc, .me]), ("mark", [.mn, .mc, .me]), ("combiningmark", [.mn, .mc, .me]),
  ("mn", [.mn]), ("nonspacingmark", [.mn]), ("mc", [.mc]), ("spacingmark", [.mc]),
  ("me", [.me]), ("enclosingmark", [.me]),
  ("n", [.nd, .nl, .no]), ("number", [.nd, .nl, .no]), ("nd", [.nd]), ("decimalnumber", [.nd]),
  ("nl", [.nl]), ("letternumber", [.nl]), ("no", [.no]), ("othernumber", [.no]),
  ("p", [.pc, .pd, .ps, .pe, .pi, .pf, .po]),
  ("punctuation", [.pc, .pd, .ps, .pe, .pi, .pf, .po]),
  ("pc", [.pc]), ("connectorpunctuation", [.pc]), ("pd", [.pd]), ("dashpunctuation", [.pd]),
  ("ps", [.ps]), ("openpunctuation", [.ps]), ("pe", [.pe]), ("closepunctuation", [.pe]),
  ("pi", [.pi]), ("initialpunctuation", [.pi]), ("pf", [.pf]), ("finalpunctuation", [.pf]),
  ("po", [.po]), ("otherpunctuation", [.po]),
  ("s", [.sm, .sc, .sk, .so]), ("symbol", [.sm, .sc, .sk, .so]),
  ("sm", [.sm]), ("mathsymbol", [.sm]), ("sc", [.sc]), ("currencysymbol", [.sc]),
  ("sk", [.sk]), ("modifiersymbol", [.sk]), ("so", [.so]), ("othersymbol", [.so]),
  ("z", [.zs, .zl, .zp]), ("separator", [.zs, .zl, .zp]), ("zs", [.zs]), ("spaceseparator", [.zs]),
  ("zl", [.zl]), ("lineseparator", [.zl]), ("zp", [.zp]), ("paragraphseparator", [.zp]),
  ("c", [.cc, .cf, .cs, .co, .cn]), ("other", [.cc, .cf, .cs, .co, .cn]),
  ("cc", [.cc]), ("control", [.cc]), ("cf", [.cf]), ("format", [.cf]), ("cs", [.cs]),
  ("surrogate", [.cs]), ("co", [.co]), ("privateuse", [.co]), ("cn", [.cn]), ("unassigned", [.cn])]

/-- Further names, without separators. -/
def otherNames : List (String × Property) := [
  ("any", any), ("assigned", assigned), ("alphabetic", alphabetic), ("lowercase", lowercase),
  ("uppercase", uppercase), ("whitespace", space), ("cased", cased),
  ("caseignorable", caseIgnorable)]

/-- A name as the tables write it: lower case, without blanks, hyphens and
underscores. -/
def normalize (name : String) : String :=
  String.ofList ((name.toList.filter fun c => c != ' ' && c != '-' && c != '_').map Char.toLower)

/-- The property that a name stands for. -/
def ofName? (name : String) : Option Property :=
  let key := normalize name
  (bracketNames ++ otherNames).lookup key
    <|> (categoryNames.lookup key).map category
    <|> (Script.all.lookup key).map script

end Property

end Highlighting.Regex
