-- Python.
import Highlighting.Grammar.Mode

namespace Highlighting.Bundled.Python

/-- Keywords that several modes have. -/
def keywords : Keywords := .classes [
  ("keyword", "and elif is global as in if from raise for except finally print import pass " ++
    "return exec else break not with class assert yield try while continue del or def lambda " ++
    "async await nonlocal|10"),
  ("built_in", "Ellipsis NotImplemented"),
  ("literal", "False None True")]

def literalBracket : Mode where
  begins := some "\\\x7b\\\x7b"
  relevance := some 0

def number : Mode where
  className := some "number"
  variants := [
    { begins := some r"\b(0b[01]+)[lLjJ]?" },
    { begins := some r"\b(0o[0-7]+)[lLjJ]?" },
    { begins := some r"(-?)(\b0[xX][a-fA-F0-9]+|(\b\d+(\.\d*)?|\.\d+)([eE][-+]?\d+)?)[lLjJ]?" }]
  relevance := some 0

def params : Mode where
  className := some "params"
  variants := [
    { className := some "", begins := some r"\(\s*\)", skip := true },
    {
      begins := some r"\("
      ends := some r"\)"
      contains := [
        .named "self",
        .named "prompt",
        .named "number",
        .named "string",
        .named "hash_comment"]
      excludeBegin := true
      excludeEnd := true }]

def prompt : Mode where
  className := some "meta"
  begins := some r"^(>>>|\.\.\.) "

def string : Mode where
  className := some "string"
  contains := [.named "backslash_escape"]
  variants := [
    {
      begins := some "(u|b)?r?'''"
      ends := some "'''"
      contains := [.named "backslash_escape", .named "prompt"]
      relevance := some 10 },
    {
      begins := some "(u|b)?r?\"\"\""
      ends := some "\"\"\""
      contains := [.named "backslash_escape", .named "prompt"]
      relevance := some 10 },
    {
      begins := some "(fr|rf|f)'''"
      ends := some "'''"
      contains := [
        .named "backslash_escape",
        .named "prompt",
        .named "literal_bracket",
        .named "subst"] },
    {
      begins := some "(fr|rf|f)\"\"\""
      ends := some "\"\"\""
      contains := [
        .named "backslash_escape",
        .named "prompt",
        .named "literal_bracket",
        .named "subst"] },
    { begins := some "(u|r|ur)'", ends := some "'", relevance := some 10 },
    { begins := some "(u|r|ur)\"", ends := some "\"", relevance := some 10 },
    { begins := some "(b|br)'", ends := some "'" },
    { begins := some "(b|br)\"", ends := some "\"" },
    {
      begins := some "(fr|rf|f)'"
      ends := some "'"
      contains := [.named "backslash_escape", .named "literal_bracket", .named "subst"] },
    {
      begins := some "(fr|rf|f)\""
      ends := some "\""
      contains := [.named "backslash_escape", .named "literal_bracket", .named "subst"] },
    { begins := some "'", ends := some "'", illegal := some r"\n" },
    { begins := some "\"", ends := some "\"", illegal := some r"\n" }]

def subst : Mode where
  className := some "subst"
  begins := some "\\\x7b"
  ends := some "\\\x7d"
  keywords := some keywords
  illegal := some "#"
  contains := [.named "string", .named "number", .named "prompt"]

/-- The whole text. -/
def root : Mode where
  keywords := some keywords
  illegal := some r"(<\/|->|\?)|=>"
  contains := [
    .named "prompt",
    .named "number",
    .inline { beginKeywords := some "if", relevance := some 0 },
    .named "string",
    .named "hash_comment",
    .inline {
      ends := some ":"
      illegal := some "[$\x7b=;\\n,]"
      contains := [
        .named "underscore_title",
        .named "params",
        .inline {
          begins := some "->"
          keywords := some (.words "None")
          endsWithParent := true }]
      variants := [
        { className := some "function", beginKeywords := some "def" },
        { className := some "class", beginKeywords := some "class" }] },
    .inline { className := some "meta", begins := some r"^[\t ]*@", ends := some "$" },
    .inline { begins := some r"\b(print|exec)\(" }]

def grammar : Grammar where
  name := some "Python"
  aliases := ["py", "gyp"]
  definitions := [
    ("literal_bracket", literalBracket),
    ("number", number),
    ("params", params),
    ("prompt", prompt),
    ("string", string),
    ("subst", subst)]
  root := root

end Highlighting.Bundled.Python
