-- Compiling a grammar. A mode is first prepared, which needs only the mode
-- and the end of the mode around it, and then linked: its references are
-- resolved to indices and its terminators are joined. All variants of a
-- reference are prepared before any is linked, so a child that refers back to
-- a mode still being linked finds its beginning.
--
-- A named reference is compiled once and shared. A mode that ends with its
-- parent takes over the parent's end, so it is shared only between parents
-- with the same end. Met again below its own copy, through modes that all end
-- with it, it resolves to that copy.
import Highlighting.Loop
import Highlighting.Compiled.Language
import Highlighting.Grammar.Common
import Highlighting.Grammar.Error

namespace Highlighting

/-! ## Preparing one mode -/

/-- The pattern of a lexeme in a mode that declares none. -/
def defaultLexemes : String := r"\w+"

/-- A pattern text that counts: an empty one is as good as none. -/
def nonEmpty (source : Option String) : Option String := source.filter (!·.isEmpty)

/-- Reads a pattern of a grammar. -/
def grammarPattern (source : String) (anyCase : Bool) : Except GrammarError Pattern :=
  (Pattern.ofSource source anyCase).mapError .invalidPattern

namespace Mode

/-- The keywords of a mode, which can be the words at which it begins. -/
def allKeywords (m : Mode) : Option Keywords := m.keywords <|> m.beginKeywords.map .words

/-- What becomes of the text collected in the mode. -/
def dispatch (m : Mode) (anyCase : Bool) : Except GrammarError Dispatch :=
  match m.subLanguage, m.allKeywords with
  | some language, _ => .ok (.embedded language)
  | none, some keywords => do
    let lexemes ← grammarPattern (m.lexemes.getD defaultLexemes) anyCase
    return .keywords (.ofKeywords keywords anyCase) lexemes
  | none, none => .ok .plain

/-- The text of the pattern at which the mode begins. -/
def beginSource (m : Mode) : String :=
  match m.beginKeywords with
  | some words => r"\b(" ++ "|".intercalate (Text.words words) ++ r")\b"
  | none => (nonEmpty m.begins).getD Pattern.boundary

/-- The text of the pattern at which the mode ends by itself. -/
def endSource (m : Mode) : Option String :=
  if m.endSameAsBegin then some m.beginSource
  else match nonEmpty m.ends with
    | some source => some source
    | none => if m.endsWithParent then none else some Pattern.boundary

/-- The mode's own end joined with the end of the mode around it, if it ends
with that. -/
def terminatorEnd (m : Mode) (parentEnd : String) : String :=
  let own := m.endSource.getD ""
  if m.endsWithParent && !parentEnd.isEmpty then
    (if m.endSource.isSome then own ++ "|" else own) ++ parentEnd
  else own

/-- The mode without its links. `parentEnd` is the end of the mode around it;
the root has none, and it neither begins nor ends. -/
def prepare (m : Mode) (anyCase : Bool) (parentEnd : Option String) :
    Except GrammarError CompiledMode := do
  let dispatch ← m.dispatch anyCase
  let (begins, ends, terminatorEnd) ← match parentEnd with
    | none => pure (none, none, "")
    | some parentEnd =>
      let _ ← grammarPattern m.beginSource anyCase
      let ends ← m.endSource.mapM (grammarPattern · anyCase)
      pure (some m.beginSource, ends, m.terminatorEnd parentEnd)
  return {
    className := m.scope
    dispatch, begins, ends, terminatorEnd
    byKeywords := m.beginKeywords.isSome
    endsWithParent := m.endsWithParent
    endsParent := m.endsParent
    excludeBegin := m.excludeBegin
    excludeEnd := m.excludeEnd
    returnBegin := m.returnBegin
    returnEnd := m.returnEnd
    skip := m.skip
    endSameAsBegin := m.endSameAsBegin
    relevance := m.relevance.getD 1 }

/-- The modes that a reference to this mode stands for. -/
def instances (m : Mode) (expanded : Bool) : List Mode :=
  if expanded then m.expand else [m.withoutVariants]

end Mode

/-! ## Names -/

/-- The mode that a name stands for: a definition, or else a common mode. -/
def Grammar.lookup? (g : Grammar) (name : String) : Option Mode :=
  g.definitions.lookup name <|> CommonMode.find? name

/-- How many modes of a chain of continuations are looked at. -/
def continuationLimit : Nat := 64

/-- Whether a mode, or one that follows it, ends with the mode around it. The
number bounds how many modes are looked at. -/
def Grammar.dependsOnParentWithin (g : Grammar) : Nat → Mode → Bool
  | 0, _ => false
  | n + 1, m =>
    m.endsWithParent ||
      match m.starts with
      | some (.inline next) => g.dependsOnParentWithin n next
      | some (.named name) =>
        if name = selfName then false
        else match g.lookup? name with
          | some next => g.dependsOnParentWithin n next
          | none => false
      | none => false

/-- Whether the end of the mode around it matters for a mode. -/
def Grammar.dependsOnParent (g : Grammar) (m : Mode) : Bool :=
  g.dependsOnParentWithin continuationLimit m

/-- Whether `source` is `base`, or `base` with more branches in front. -/
def extendsEnd (source base : String) : Bool :=
  source == base ||
    (!base.isEmpty && (("|" ++ base).toList.reverse).isPrefixOf source.toList.reverse)

/-! ## The modes compiled so far -/

/-- Under which a compiled reference is kept: its name, whether its variants
are expanded, and the end it was compiled under. -/
structure RefKey where
  name : String
  expanded : Bool
  /-- `none` outside any mode, and empty for a mode to which the end does not
  matter. -/
  parentEnd : Option String
  deriving DecidableEq, Repr

/-- A reference that is being linked and that depends on its parent. -/
structure OpenRef where
  name : String
  expanded : Bool
  ids : List Nat
  deriving DecidableEq, Repr

/-- The modes compiled so far. -/
structure Arena where
  modes : Array CompiledMode := #[]
  /-- The references compiled so far. -/
  shared : List (RefKey × List Nat) := []
  /-- The references being linked, the innermost first. -/
  linking : List OpenRef := []

/-- A step of compiling. -/
abbrev Build := StateT Arena (Except GrammarError)

/-- A way to resolve a reference in the mode `current`: under the end of the
mode around it, with its variants expanded or not, to indices. -/
abbrev Resolver := (reference : ModeRef) → (current : Nat) → (parentEnd : Option String) →
  (expanded : Bool) → Build (List Nat)

namespace Arena

/-- The copy of a reference that is being linked further out, if `parentEnd`
only adds branches to that copy's end. -/
def enclosing? (a : Arena) (name : String) (expanded : Bool) (parentEnd : Option String) :
    Option (List Nat) := do
  let parentEnd ← parentEnd
  let ref ← a.linking.find? fun r =>
    r.name == name && r.expanded == expanded &&
      r.ids.any fun id =>
        (a.modes[id]?).any fun m => extendsEnd parentEnd m.terminatorEnd
  return ref.ids

/-- The rules of a mode: the beginnings of its children, its end, and what is
illegal in it. A beginning at keywords allows for a dot on either side. -/
def rules (a : Arena) (contains : List Nat) (terminatorEnd : String) (illegal : Option String) :
    List (Rule × String) :=
  (contains.filterMap fun id => do
    let child ← a.modes[id]?
    let source ← child.begins
    return (.begins id, if child.byKeywords then r"\.?(?:" ++ source ++ r")\.?" else source))
  ++ (if terminatorEnd.isEmpty then [] else [(.ends, terminatorEnd)])
  ++ (illegal.map fun source => (Rule.illegal, source)).toList

end Arena

/-! ## Compiling -/

/-- Prepares modes and adds them to the arena, in order. -/
def prepareAll (g : Grammar) (modes : List Mode) (parentEnd : Option String) : Build (List Nat) :=
  modes.mapM fun m => do
    let compiled ← m.prepare g.caseInsensitive parentEnd
    let a ← get
    set { a with modes := a.modes.push compiled }
    return a.modes.size

/-- Links one prepared mode. What follows it stands beside it, so it sees the
same parent. -/
def link (g : Grammar) (resolve : Resolver) (id : Nat) (m : Mode) (parentEnd : Option String) :
    Build Unit := do
  let ownEnd := (((← get).modes[id]?).map CompiledMode.terminatorEnd).getD ""
  let contains ← m.contains.mapM fun r => resolve r id (some ownEnd) true
  let contains := contains.flatten
  let starts ← match m.starts with
    | some r => do pure (← resolve r id parentEnd false).head?
    | none => pure none
  let a ← get
  match Terminators.ofRules (a.rules contains ownEnd m.illegal) g.caseInsensitive with
  | .error e => throw (.invalidPattern e)
  | .ok terminators =>
    set { a with modes := a.modes.modify id fun c => { c with contains, starts, terminators } }

/-- Links prepared modes, in order. -/
def linkAll (g : Grammar) (resolve : Resolver) (ids : List Nat) (modes : List Mode)
    (parentEnd : Option String) : Build Unit :=
  (ids.zip modes).forM fun (id, m) => link g resolve id m parentEnd

/-- Resolves a reference, and compiles it if it is met for the first time.
The depth bounds how far references are followed. -/
def resolve (g : Grammar) : (depth : Nat) → Resolver
  | 0, _, _, _, _ => throw .tooDeep
  | depth + 1, .inline m, _, parentEnd, expanded => do
    let modes := m.instances expanded
    let ids ← prepareAll g modes parentEnd
    linkAll g (resolve g depth) ids modes parentEnd
    return ids
  | depth + 1, .named name, current, parentEnd, expanded => do
    if name = selfName then return [current]
    let some m := g.lookup? name | throw (.unknownMode name)
    let dependent := g.dependsOnParent m
    let a ← get
    if dependent then
      if let some ids := a.enclosing? name expanded parentEnd then return ids
    let key : RefKey := {
      name, expanded
      parentEnd := if dependent then parentEnd else parentEnd.map fun _ => "" }
    if let some ids := a.shared.lookup key then return ids
    let modes := m.instances expanded
    let ids ← prepareAll g modes parentEnd
    modify fun a => { a with shared := (key, ids) :: a.shared }
    if dependent then
      modify fun a => { a with linking := ⟨name, expanded, ids⟩ :: a.linking }
      linkAll g (resolve g depth) ids modes parentEnd
      modify fun a => { a with linking := a.linking.tail }
    else linkAll g (resolve g depth) ids modes parentEnd
    return ids

/-- Compiles a grammar, following references to a depth. -/
def compileWithin (g : Grammar) (depth : Nat) : Except GrammarError CompiledLanguage := do
  let root := g.root.withoutVariants
  let build : Build Unit := do
    let ids ← prepareAll g [root] none
    linkAll g (resolve g depth) ids [root] none
  let (_, a) ← build.run {}
  return { caseInsensitive := g.caseInsensitive, modes := a.modes }

/-- Compiles a grammar at a depth, or goes on to a larger one if references lead deeper. -/
def compileOrDeepen (g : Grammar) (depth : Nat) : Nat ⊕ Except GrammarError CompiledLanguage :=
  match compileWithin g depth with
  | .error .tooDeep => .inl (2 * depth + 1)
  | result => .inr result

/-- Compiles a grammar, following references deeper and deeper until none is left to follow;
`none` if that never comes to an end. -/
def compileFrom? (g : Grammar) (depth : Nat) : Option (Except GrammarError CompiledLanguage) :=
  loop? (compileOrDeepen g) depth

/-- Compiles a grammar, however deep its references lead. Every pattern is checked, so that a
grammar which compiles does not fail later. -/
def compile (g : Grammar) : Except GrammarError CompiledLanguage :=
  (compileFrom? g 0).getD (.error .tooDeep)

end Highlighting
