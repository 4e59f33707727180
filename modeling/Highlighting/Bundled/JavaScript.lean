-- JavaScript, with markup and style sheets in its template strings.
import Highlighting.Grammar.Mode

namespace Highlighting.Bundled.JavaScript

/-- Keywords that several modes have. -/
def keywords : Keywords := .classes [
  ("keyword", "in of if for while finally var new function do return void else break catch " ++
    "instanceof with throw case default try this switch continue typeof delete let yield " ++
    "const export super debugger as async await static import from as"),
  ("literal", "true false null undefined NaN Infinity"),
  ("built_in", "eval isFinite isNaN parseFloat parseInt decodeURI decodeURIComponent " ++
    "encodeURI encodeURIComponent escape unescape Object Function Boolean Error EvalError " ++
    "InternalError RangeError ReferenceError StopIteration SyntaxError TypeError URIError " ++
    "Number Math Date String RegExp Array Float32Array Float64Array Int16Array Int32Array " ++
    "Int8Array Uint16Array Uint32Array Uint8Array Uint8ClampedArray ArrayBuffer DataView JSON " ++
    "Intl arguments require module console window document Symbol Set Map WeakSet WeakMap " ++
    "Proxy Reflect Promise")]

/-- What several modes contain. -/
def substitutionContents : List ModeRef := [
  .named "apos_string",
  .named "quote_string",
  .named "html_template",
  .named "css_template",
  .named "template_string",
  .named "number",
  .named "regexp",
  .named "c_block_comment",
  .named "c_line_comment"]

def cssTemplate : Mode where
  begins := some "css`"
  starts := some (.inline {
    ends := some "`"
    contains := [.named "backslash_escape", .named "subst"]
    subLanguage := some (.name "css") })

def htmlTemplate : Mode where
  begins := some "html`"
  starts := some (.inline {
    ends := some "`"
    contains := [.named "backslash_escape", .named "subst"]
    subLanguage := some (.name "xml") })

def number : Mode where
  className := some "number"
  variants := [
    { begins := some r"\b(0[bB][01]+)n?" },
    { begins := some r"\b(0[oO][0-7]+)n?" },
    { begins := some r"(-?)(\b0[xX][a-fA-F0-9]+|(\b\d+(\.\d*)?|\.\d+)([eE][-+]?\d+)?)n?" }]
  relevance := some 0

def subst : Mode where
  className := some "subst"
  begins := some "\\$\\\x7b"
  ends := some "\\\x7d"
  keywords := some keywords
  contains := [
    .named "apos_string",
    .named "quote_string",
    .named "html_template",
    .named "css_template",
    .named "template_string",
    .named "number",
    .named "regexp"]

def templateString : Mode where
  className := some "string"
  begins := some "`"
  ends := some "`"
  contains := [.named "backslash_escape", .named "subst"]

/-- The whole text. -/
def root : Mode where
  keywords := some keywords
  illegal := some "#(?!!)"
  contains := [
    .inline {
      className := some "meta"
      begins := some "^\\s*['\"]use (strict|asm)['\"]"
      relevance := some 10 },
    .inline { className := some "meta", begins := some "^#!", ends := some "$" },
    .named "apos_string",
    .named "quote_string",
    .named "html_template",
    .named "css_template",
    .named "template_string",
    .named "c_line_comment",
    .inline {
      className := some "comment"
      begins := some r"/\*\*"
      ends := some r"\*/"
      contains := [
        .inline {
          className := some "doctag"
          begins := some "@[A-Za-z]+"
          contains := [
            .inline {
              className := some "type"
              begins := some "\\\x7b"
              ends := some "\\\x7d"
              relevance := some 0 },
            .inline {
              className := some "variable"
              begins := some r"[A-Za-z$_][0-9A-Za-z$_]*(?=\s*(-)|$)"
              endsParent := true
              relevance := some 0 },
            .inline { begins := some r"(?=[^\n])\s", relevance := some 0 }] },
        .named "phrasal_words",
        .named "doctag"]
      relevance := some 0 },
    .named "c_block_comment",
    .named "number",
    .inline {
      begins := some "[\x7b,\\n]\\s*"
      contains := [
        .inline {
          begins := some r"[A-Za-z$_][0-9A-Za-z$_]*\s*:"
          contains := [
            .inline {
              className := some "attr"
              begins := some "[A-Za-z$_][0-9A-Za-z$_]*"
              relevance := some 0 }]
          returnBegin := true
          relevance := some 0 }]
      relevance := some 0 },
    .inline {
      begins := some (r"(!|!=|!==|%|%=|&|&&|&=|\*|\*=|\+|\+=|,|-|-=|/=|/|:|;|<<|<<=|<=|<|===" ++
        "|==|=|>>>=|>>=|>=|>>>|>>|>|\\?|\\[|\\\x7b|\\(|\\^|\\^=|\\||\\|=|\\|\\|" ++
        r"|~|\b(case|return|throw)\b)\s*")
      keywords := some (.words "return throw case")
      contains := [
        .named "c_line_comment",
        .named "c_block_comment",
        .named "regexp",
        .inline {
          className := some "function"
          begins := some r"(\(.*?\)|[A-Za-z$_][0-9A-Za-z$_]*)\s*=>"
          ends := some r"\s*=>"
          contains := [
            .inline {
              className := some "params"
              variants := [
                { begins := some "[A-Za-z$_][0-9A-Za-z$_]*" },
                { begins := some r"\(\s*\)" },
                {
                  begins := some r"\("
                  ends := some r"\)"
                  keywords := some keywords
                  contains := substitutionContents
                  excludeBegin := true
                  excludeEnd := true }] }]
          returnBegin := true },
        .inline {
          className := some ""
          begins := some r"\s"
          ends := some r"\s*"
          skip := true },
        .inline {
          contains := [
            .inline {
              begins := some r"<[A-Za-z0-9\\._:-]+"
              ends := some r"\/[A-Za-z0-9\\._:-]+>|\/>"
              contains := [.named "self"]
              skip := true }]
          variants := [
            { begins := some "<>", ends := some "</>" },
            { begins := some r"<[A-Za-z0-9\\._:-]+", ends := some r"\/[A-Za-z0-9\\._:-]+>|\/>" }]
          subLanguage := some (.name "xml") }]
      relevance := some 0 },
    .inline {
      className := some "function"
      ends := some "\\\x7b"
      beginKeywords := some "function"
      illegal := some r"\[|%"
      contains := [
        .inline {
          className := some "title"
          begins := some "[A-Za-z$_][0-9A-Za-z$_]*"
          relevance := some 0 },
        .inline {
          className := some "params"
          begins := some r"\("
          ends := some r"\)"
          contains := substitutionContents
          excludeBegin := true
          excludeEnd := true }]
      excludeEnd := true },
    .inline { begins := some r"\$[(.]" },
    .named "method_guard",
    .inline {
      className := some "class"
      ends := some "[\x7b;=]"
      beginKeywords := some "class"
      illegal := some "[:\"\\[\\]]"
      contains := [
        .inline { beginKeywords := some "extends" },
        .named "underscore_title"]
      excludeEnd := true },
    .inline {
      ends := some "\\\x7b"
      beginKeywords := some "constructor get set"
      excludeEnd := true }]

def grammar : Grammar where
  name := some "JavaScript"
  aliases := ["js", "jsx", "mjs", "cjs"]
  definitions := [
    ("css_template", cssTemplate),
    ("html_template", htmlTemplate),
    ("number", number),
    ("subst", subst),
    ("template_string", templateString)]
  root := root

end Highlighting.Bundled.JavaScript
