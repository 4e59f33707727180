-- Style sheets.
import Highlighting.Grammar.Mode

namespace Highlighting.Bundled.Css

def attributeName : Mode where
  className := some "attribute"
  begins := some r"\S"
  ends := some ":"
  starts := some (.inline {
    contains := [
      .named "function_like",
      .named "css_number",
      .named "quote_string",
      .named "apos_string",
      .named "c_block_comment",
      .inline { className := some "number", begins := some "#[0-9A-Fa-f]+" },
      .inline { className := some "meta", begins := some "!important" }]
    endsWithParent := true
    excludeEnd := true })
  excludeEnd := true

def functionLike : Mode where
  begins := some r"[\w-]+\("
  contains := [
    .inline { className := some "built_in", begins := some r"[\w-]+" },
    .inline {
      begins := some r"\("
      ends := some r"\)"
      contains := [.named "apos_string", .named "quote_string", .named "css_number"] }]
  returnBegin := true

def rule : Mode where
  begins := some r"(?:[A-Z_.\-]+|--[a-zA-Z0-9_-]+)\s*:"
  ends := some ";"
  contains := [.named "attribute"]
  endsWithParent := true
  returnBegin := true

/-- The whole text. -/
def root : Mode where
  illegal := some r"[=\/|'\$]"
  contains := [
    .named "c_block_comment",
    .inline { className := some "selector-id", begins := some "#[A-Za-z0-9_-]+" },
    .inline { className := some "selector-class", begins := some r"\.[A-Za-z0-9_-]+" },
    .inline {
      className := some "selector-attr"
      begins := some r"\["
      ends := some r"\]"
      illegal := some "$"
      contains := [.named "apos_string", .named "quote_string"] },
    .inline {
      className := some "selector-pseudo"
      begins := some ":(:)?[a-zA-Z0-9_\\-+()\"'.]+" },
    .inline {
      begins := some "@(page|font-face)"
      keywords := some (.words "@page @font-face")
      lexemes := some "@[a-z-]+" },
    .inline {
      begins := some "@"
      ends := some "[\x7b;]"
      illegal := some ":"
      contains := [
        .inline { className := some "keyword", begins := some r"@\-?\w[\w]*(\-\w+)*" },
        .inline {
          begins := some r"\s"
          keywords := some (.words "and or not only")
          contains := [
            .inline { className := some "attribute", begins := some "[a-z-]+:" },
            .named "apos_string",
            .named "quote_string",
            .named "css_number"]
          endsWithParent := true
          excludeEnd := true
          relevance := some 0 }]
      returnBegin := true },
    .inline {
      className := some "selector-tag"
      begins := some "[a-zA-Z-][a-zA-Z0-9_-]*"
      relevance := some 0 },
    .inline {
      begins := some "\\\x7b"
      ends := some "\\\x7d"
      illegal := some r"\S"
      contains := [.named "c_block_comment", .named "rule"] }]

def grammar : Grammar where
  name := some "CSS"
  caseInsensitive := true
  definitions := [("attribute", attributeName), ("function_like", functionLike), ("rule", rule)]
  root := root

end Highlighting.Bundled.Css
