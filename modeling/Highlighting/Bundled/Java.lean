-- Java.
import Highlighting.Grammar.Mode

namespace Highlighting.Bundled.Java

/-- Keywords that several modes have. -/
def keywords : Keywords :=
  .words ("false synchronized int abstract float private char boolean var static null if const " ++
    "for true while long strictfp finally protected import native final void enum else break " ++
    "transient catch instanceof byte super volatile case assert short package default double " ++
    "public try this switch continue throws protected public private module requires exports " ++
    "do")

def annotationMode : Mode where
  className := some "meta"
  begins := some "@[a-zA-Z_$][a-zA-Z_$0-9]*"
  contains := [
    .inline { begins := some r"\(", ends := some r"\)", contains := [.named "self"] }]

/-- The whole text. -/
def root : Mode where
  keywords := some keywords
  illegal := some r"<\/|#"
  contains := [
    .inline {
      className := some "comment"
      begins := some r"/\*\*"
      ends := some r"\*/"
      contains := [
        .inline { begins := some r"\w+@", relevance := some 0 },
        .inline { className := some "doctag", begins := some "@[A-Za-z]+" },
        .named "phrasal_words",
        .named "doctag"]
      relevance := some 0 },
    .named "c_line_comment",
    .named "c_block_comment",
    .named "apos_string",
    .named "quote_string",
    .inline {
      className := some "class"
      ends := some "[\x7b;=]"
      beginKeywords := some "class interface"
      keywords := some (.words "class interface")
      illegal := some "[:\"\\[\\]]"
      contains := [
        .inline { beginKeywords := some "extends implements" },
        .named "underscore_title"]
      excludeEnd := true },
    .inline { beginKeywords := some "new throw return else", relevance := some 0 },
    .inline {
      className := some "function"
      begins := some (r"([a-zA-Z_$][a-zA-Z_$0-9]*(<[a-zA-Z_$][a-zA-Z_$0-9]*" ++
        r"(\s*,\s*[a-zA-Z_$][a-zA-Z_$0-9]*)*>)?\s+)+[a-zA-Z_]\w*\s*\(")
      ends := some "[\x7b;=]"
      keywords := some keywords
      contains := [
        .inline {
          begins := some r"[a-zA-Z_]\w*\s*\("
          contains := [.named "underscore_title"]
          returnBegin := true
          relevance := some 0 },
        .inline {
          className := some "params"
          begins := some r"\("
          ends := some r"\)"
          keywords := some keywords
          contains := [
            .named "annotation",
            .named "apos_string",
            .named "quote_string",
            .named "c_number",
            .named "c_block_comment"]
          relevance := some 0 },
        .named "c_line_comment",
        .named "c_block_comment"]
      excludeEnd := true
      returnBegin := true },
    .inline {
      className := some "number"
      begins := some (r"\b(0[bB]([01]+[01_]+[01]+|[01]+)" ++
        "|0[xX]([a-fA-F0-9]+[a-fA-F0-9_]+[a-fA-F0-9]+|[a-fA-F0-9]+)" ++
        r"|(([\d]+[\d_]+[\d]+|[\d]+)(\.([\d]+[\d_]+[\d]+|[\d]+))?" ++
        r"|\.([\d]+[\d_]+[\d]+|[\d]+))([eE][-+]?\d+)?)[lLfF]?")
      relevance := some 0 },
    .named "annotation"]

def grammar : Grammar where
  name := some "Java"
  aliases := ["jsp"]
  definitions := [("annotation", annotationMode)]
  root := root

end Highlighting.Bundled.Java
