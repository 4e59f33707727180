-- The languages that come with the library.
import Highlighting.Bundled.JavaScript
import Highlighting.Bundled.Java
import Highlighting.Bundled.Json
import Highlighting.Bundled.Xml
import Highlighting.Bundled.Css
import Highlighting.Bundled.Markdown
import Highlighting.Bundled.Python
import Highlighting.Bundled.Bash
import Highlighting.Bundled.PlainText
import Highlighting.Registry

namespace Highlighting.Bundled

/-- The grammars by name, in the order in which a detection tries them. -/
def grammars : List (String × Grammar) := [
  ("javascript", JavaScript.grammar),
  ("java", Java.grammar),
  ("json", Json.grammar),
  ("xml", Xml.grammar),
  ("css", Css.grammar),
  ("markdown", Markdown.grammar),
  ("python", Python.grammar),
  ("bash", Bash.grammar),
  ("plaintext", PlainText.grammar)]

/-- The names of the languages. -/
def names : List String := grammars.map Prod.fst

/-- The grammar with exactly this name. -/
def grammar? (name : String) : Option Grammar := grammars.lookup name

/-- A registry with all of them. -/
def registry : Registry := grammars.foldl (fun r (name, g) => r.register name g) {}

end Highlighting.Bundled
