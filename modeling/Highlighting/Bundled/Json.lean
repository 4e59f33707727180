-- JSON.
import Highlighting.Grammar.Mode

namespace Highlighting.Bundled.Json

/-- What several modes contain. -/
def values : List ModeRef := [
  .named "quote_string",
  .named "c_number",
  .named "object",
  .named "array",
  .named "c_line_comment",
  .named "c_block_comment"]

def array : Mode where
  begins := some r"\["
  ends := some r"\]"
  illegal := some r"\S"
  contains := [
    .inline {
      ends := some ","
      keywords := some (.classes [("literal", "true false null")])
      contains := values
      endsWithParent := true
      excludeEnd := true }]

def object : Mode where
  begins := some "\\\x7b"
  ends := some "\\\x7d"
  illegal := some r"\S"
  contains := [
    .inline {
      className := some "attr"
      begins := some "\""
      ends := some "\""
      illegal := some r"\n"
      contains := [.named "backslash_escape"] },
    .inline {
      begins := some ":"
      ends := some ","
      keywords := some (.classes [("literal", "true false null")])
      contains := values
      endsWithParent := true
      excludeEnd := true },
    .named "c_line_comment",
    .named "c_block_comment"]

/-- The whole text. -/
def root : Mode where
  keywords := some (.classes [("literal", "true false null")])
  illegal := some r"\S"
  contains := values

def grammar : Grammar where
  name := some "JSON"
  definitions := [("array", array), ("object", object)]
  root := root

end Highlighting.Bundled.Json
