-- XML and HTML, with the languages that their elements hold.
import Highlighting.Grammar.Mode

namespace Highlighting.Bundled.Xml

/-- What several modes contain. -/
def tagContents : List ModeRef := [
  .inline {
    className := some "meta-keyword"
    begins := some "#?[a-z_][a-z1-9_-]+"
    illegal := some r"\n" }]

def entity : Mode where
  className := some "symbol"
  begins := some "&[a-z]+;|&#[0-9]+;|&#x[a-f0-9]+;"

def metaKeywords : Mode where
  begins := some r"\s"
  contains := tagContents

def metaParenthesized : Mode where
  begins := some r"\("
  ends := some r"\)"
  contains := tagContents

def metaString : Mode where
  className := some "meta-string"
  variants := [
    {
      begins := some "\""
      ends := some "\""
      illegal := some r"\n"
      contains := [.named "backslash_escape"] },
    {
      begins := some "'"
      ends := some "'"
      illegal := some r"\n"
      contains := [.named "backslash_escape"] }]

def tagInternals : Mode where
  illegal := some "<"
  contains := [
    .inline {
      className := some "attr"
      begins := some r"[A-Za-z0-9\._:-]+"
      relevance := some 0 },
    .inline {
      begins := some r"=\s*"
      contains := [
        .inline {
          className := some "string"
          variants := [
            { begins := some "\"", ends := some "\"", contains := [.named "entity"] },
            { begins := some "'", ends := some "'", contains := [.named "entity"] },
            { begins := some "[^\\s\"'=<>`]+" }]
          endsParent := true }]
      relevance := some 0 }]
  endsWithParent := true
  relevance := some 0

/-- The whole text. -/
def root : Mode where
  contains := [
    .inline {
      className := some "meta"
      begins := some "<![a-z]"
      ends := some ">"
      contains := [
        .named "meta_keywords",
        .named "meta_string",
        .named "meta_parenthesized",
        .inline {
          begins := some r"\["
          ends := some r"\]"
          contains := [
            .inline {
              className := some "meta"
              begins := some "<![a-z]"
              ends := some ">"
              contains := [
                .named "meta_keywords",
                .named "meta_parenthesized",
                .named "meta_string"] }] }]
      relevance := some 10 },
    .inline {
      className := some "comment"
      begins := some "<!--"
      ends := some "-->"
      contains := [.named "phrasal_words", .named "doctag"]
      relevance := some 10 },
    .inline { begins := some r"<\!\[CDATA\[", ends := some r"\]\]>", relevance := some 10 },
    .named "entity",
    .inline {
      className := some "meta"
      begins := some r"<\?xml"
      ends := some r"\?>"
      relevance := some 10 },
    .inline {
      className := some "tag"
      begins := some r"<style(?=\s|>)"
      ends := some ">"
      keywords := some (.classes [("name", "style")])
      contains := [.named "tag_internals"]
      starts := some (.inline {
        ends := some "</style>"
        returnEnd := true
        subLanguage := some (.candidates ["css", "xml"]) }) },
    .inline {
      className := some "tag"
      begins := some r"<script(?=\s|>)"
      ends := some ">"
      keywords := some (.classes [("name", "script")])
      contains := [.named "tag_internals"]
      starts := some (.inline {
        ends := some "</script>"
        returnEnd := true
        subLanguage := some (.candidates ["javascript", "xml"]) }) },
    .inline {
      className := some "tag"
      begins := some "</?"
      ends := some "/?>"
      contains := [
        .inline { className := some "name", begins := some r"[^\/><\s]+", relevance := some 0 },
        .named "tag_internals"] }]

def grammar : Grammar where
  name := some "HTML, XML"
  aliases := ["html", "xhtml", "rss", "atom", "xjb", "xsd", "xsl", "plist", "svg"]
  caseInsensitive := true
  definitions := [
    ("entity", entity),
    ("meta_keywords", metaKeywords),
    ("meta_parenthesized", metaParenthesized),
    ("meta_string", metaString),
    ("tag_internals", tagInternals)]
  root := root

end Highlighting.Bundled.Xml
