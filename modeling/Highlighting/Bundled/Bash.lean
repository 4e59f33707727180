-- Shell scripts.
import Highlighting.Grammar.Mode

namespace Highlighting.Bundled.Bash

def variableName : Mode where
  className := some "variable"
  variants := [
    { begins := some r"\$[\w\d#@][\w\d_]*" },
    { begins := some "\\$\\\x7b(.*?)\\\x7d" }]

/-- The whole text. -/
def root : Mode where
  keywords := some (.classes [
    ("keyword", "if then else elif fi for while in do done case esac function"),
    ("literal", "true false"),
    ("built_in", "break cd continue eval exec exit export getopts hash pwd readonly return " ++
      "shift test times trap umask unset alias bind builtin caller command declare echo " ++
      "enable help let local logout mapfile printf read readarray source type typeset ulimit " ++
      "unalias set shopt autoload bg bindkey bye cap chdir clone comparguments compcall " ++
      "compctl compdescribe compfiles compgroups compquote comptags comptry compvalues dirs " ++
      "disable disown echotc echoti emulate fc fg float functions getcap getln history " ++
      "integer jobs kill limit log noglob popd print pushd pushln rehash sched setcap setopt " ++
      "stat suspend ttyctl unfunction unhash unlimit unsetopt vared wait whence where which " ++
      "zcompile zformat zftp zle zmodload zparseopts zprof zpty zregexparse zsocket zstyle " ++
      "ztcp"),
    ("_", "-ne -eq -lt -gt -f -d -e -s -l -a")])
  lexemes := some r"\b-?[a-z\._]+\b"
  contains := [
    .inline {
      className := some "meta"
      begins := some r"^#![^\n]+sh\s*$"
      relevance := some 10 },
    .inline {
      className := some "function"
      begins := some "\\w[\\w\\d_]*\\s*\\(\\s*\\)\\s*\\\x7b"
      contains := [
        .inline { className := some "title", begins := some r"\w[\w\d_]*", relevance := some 0 }]
      returnBegin := true
      relevance := some 0 },
    .named "hash_comment",
    .inline {
      className := some "string"
      begins := some "\""
      ends := some "\""
      contains := [
        .named "backslash_escape",
        .named "variable",
        .inline {
          className := some "variable"
          begins := some r"\$\("
          ends := some r"\)"
          contains := [.named "backslash_escape"] }] },
    .inline { className := some "", begins := some "\\\\\"" },
    .inline { className := some "string", begins := some "'", ends := some "'" },
    .named "variable"]

def grammar : Grammar where
  name := some "Bash"
  aliases := ["sh", "zsh"]
  definitions := [("variable", variableName)]
  root := root

end Highlighting.Bundled.Bash
