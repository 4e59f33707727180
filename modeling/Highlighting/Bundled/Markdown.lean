-- Markdown.
import Highlighting.Grammar.Mode

namespace Highlighting.Bundled.Markdown

/-- The whole text. -/
def root : Mode where
  contains := [
    .inline {
      className := some "section"
      variants := [
        { begins := some "^#\x7b1,6\x7d", ends := some "$" },
        { begins := some "^.+?\\n[=-]\x7b2,\x7d$" }] },
    .inline {
      begins := some "<"
      ends := some ">"
      relevance := some 0
      subLanguage := some (.name "xml") },
    .inline { className := some "bullet", begins := some r"^\s*([*+-]|(\d+\.))\s+" },
    .inline { className := some "strong", begins := some "[*_]\x7b2\x7d.+?[*_]\x7b2\x7d" },
    .inline {
      className := some "emphasis"
      variants := [
        { begins := some r"\*.+?\*" },
        { begins := some "_.+?_", relevance := some 0 }] },
    .inline { className := some "quote", begins := some r"^>\s+", ends := some "$" },
    .inline {
      className := some "code"
      variants := [
        { begins := some r"^```\w*\s*$", ends := some "^```[ ]*$" },
        { begins := some "`.+?`" },
        { begins := some "^( \x7b4\x7d|\\t)", ends := some "$", relevance := some 0 }] },
    .inline { begins := some "^[-\\*]\x7b3,\x7d", ends := some "$" },
    .inline {
      begins := some r"\[.+?\][\(\[].*?[\)\]]"
      contains := [
        .inline {
          className := some "string"
          begins := some r"\["
          ends := some r"\]"
          excludeBegin := true
          returnEnd := true
          relevance := some 0 },
        .inline {
          className := some "link"
          begins := some r"\]\("
          ends := some r"\)"
          excludeBegin := true
          excludeEnd := true },
        .inline {
          className := some "symbol"
          begins := some r"\]\["
          ends := some r"\]"
          excludeBegin := true
          excludeEnd := true }]
      returnBegin := true
      relevance := some 10 },
    .inline {
      begins := some r"^\[[^\n]+\]:"
      contains := [
        .inline {
          className := some "symbol"
          begins := some r"\["
          ends := some r"\]"
          excludeBegin := true
          excludeEnd := true },
        .inline {
          className := some "link"
          begins := some r":\s*"
          ends := some "$"
          excludeBegin := true }]
      returnBegin := true }]

def grammar : Grammar where
  name := some "Markdown"
  aliases := ["md", "mkdown"]
  root := root

end Highlighting.Bundled.Markdown
