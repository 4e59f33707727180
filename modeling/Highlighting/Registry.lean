-- The registered languages. A language has a name and any number of aliases,
-- and case does not matter in either. Its grammar is compiled at the first
-- use and the result is kept.
import Highlighting.Compiled.Arena

namespace Highlighting

/-! ## Languages -/

/-- A registered grammar with its compiled form. -/
structure Language where
  /-- The name as it was registered. -/
  name : String
  grammar : Grammar
  /-- The compiled form, which is made when it is first asked for. -/
  compiled : Thunk (Except GrammarError CompiledLanguage)
  compiled_eq : compiled.get = compile grammar

/-- The language of a grammar. -/
def Language.ofGrammar (name : String) (grammar : Grammar) : Language where
  name
  grammar
  compiled := Thunk.mk fun _ => compile grammar
  compiled_eq := rfl

/-! ## The registry -/

/-- Languages by name and by alias. -/
structure Registry where
  /-- The languages under their names in lower case, the last one first. -/
  languages : List (String × Language) := []
  /-- Aliases in lower case with the name they point to, the last one first. -/
  aliases : List (String × String) := []
  /-- The names as first written, in the order of registration. -/
  names : List String := []

namespace Registry

/-- Points an alias to a name. An empty alias is left out. -/
def bind (r : Registry) (name other : String) : Registry :=
  if other.isEmpty then r
  else { r with aliases := (Unicode.lower other, Unicode.lower name) :: r.aliases }

/-- Points each alias to a name. -/
def addAliases (r : Registry) (name : String) (aliases : List String) : Registry :=
  aliases.foldl (fun r other => r.bind name other) r

/-- Points aliases to several names. -/
def addAllAliases (r : Registry) (map : List (String × List String)) : Registry :=
  map.foldl (fun r (name, aliases) => r.addAliases name aliases) r

/-- The language whose name is `key` in lower case. -/
def named? (r : Registry) (key : String) : Option Language := r.languages.lookup key

/-- Registers a grammar, with the aliases that it declares. A language of the
same name is replaced. -/
def register (r : Registry) (name : String) (grammar : Grammar) : Registry :=
  let key := Unicode.lower name
  let names := if (r.named? key).isSome then r.names else r.names ++ [name]
  let languages := (key, Language.ofGrammar name grammar) :: r.languages.filter (·.1 != key)
  { r with languages, names }.addAliases name grammar.aliases

/-- The language that a name stands for, or else an alias. -/
def resolve? (r : Registry) (name : String) : Option Language :=
  let key := Unicode.lower name
  r.named? key <|> (r.aliases.lookup key).bind r.named?

/-- Whether a name or alias stands for a language. -/
def isRegistered (r : Registry) (name : String) : Bool := (r.resolve? name).isSome

/-- The number of languages. -/
def size (r : Registry) : Nat := r.names.length

def isEmpty (r : Registry) : Bool := r.names.isEmpty

end Registry

end Highlighting
