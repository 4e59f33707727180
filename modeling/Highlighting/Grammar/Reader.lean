-- Grammars from data. The fields of a mode are found by name, or by place if
-- the mode is written as a list. Names, aliases and the modes that a grammar
-- defines are read as they are written, so that any scalar is a text there;
-- whatever may have one of several shapes is read by its type.
import Highlighting.Grammar.Mode
import Highlighting.Yaml.Data

namespace Highlighting

open Yaml (Data Value)

/-- Why a text is no grammar. -/
inductive ReadError where
  | yaml (e : Yaml.Error)
  /-- A value of a type that does not belong where it stands. -/
  | shape
  deriving DecidableEq, Repr

/-! ## The fields of a mode -/

/-- A field of a mode. -/
inductive ModeField where
  | className | begins | ends | beginKeywords | keywords | lexemes | illegal
  | contains | variants | starts
  | endsWithParent | endsParent | excludeBegin | excludeEnd | returnBegin | returnEnd
  | skip | endSameAsBegin | relevance | subLanguage
  deriving DecidableEq, Repr

namespace ModeField

/-- The fields in the order in which a list gives them. -/
def all : List ModeField :=
  [className, begins, ends, beginKeywords, keywords, lexemes, illegal, contains, variants, starts,
    endsWithParent, endsParent, excludeBegin, excludeEnd, returnBegin, returnEnd,
    skip, endSameAsBegin, relevance, subLanguage]

/-- The name that a grammar gives a field. -/
def name : ModeField → String
  | className => "className"
  | begins => "begin"
  | ends => "end"
  | beginKeywords => "beginKeywords"
  | keywords => "keywords"
  | lexemes => "lexemes"
  | illegal => "illegal"
  | contains => "contains"
  | variants => "variants"
  | starts => "starts"
  | endsWithParent => "endsWithParent"
  | endsParent => "endsParent"
  | excludeBegin => "excludeBegin"
  | excludeEnd => "excludeEnd"
  | returnBegin => "returnBegin"
  | returnEnd => "returnEnd"
  | skip => "skip"
  | endSameAsBegin => "endSameAsBegin"
  | relevance => "relevance"
  | subLanguage => "subLanguage"

/-- The field of a name. -/
def ofName? (s : String) : Option ModeField := all.find? (·.name == s)

end ModeField

/-! ## How values are read -/

/-- What a member of a map is found by. -/
inductive Key where
  | name (s : String)
  /-- The place of a field. -/
  | place (n : Nat)

/-- The members of a mode: in order, or by key. -/
inductive Members (α : Type) where
  | row (xs : List α)
  | keyed (xs : List (Key × α))

/-- How values of a kind are read where a type is wanted. Each fails on a
value that does not fit. -/
structure Form (α : Type) where
  /-- Tells a value that is there from one that is nothing. -/
  optional? : α → Option (Option α)
  text? : α → Option String
  bool? : α → Option Bool
  nat? : α → Option Nat
  items? : α → Option (List α)
  members? : α → Option (Members α)
  /-- The entries of a map whose keys are names. -/
  entries? : α → Option (List (String × α))
  /-- The value by its type. -/
  data? : α → Option Data

/-- Data that has types already. -/
def Form.typed : Form Data where
  optional?
    | .null => some none
    | d => some (some d)
  text?
    | .text s => some s
    | _ => none
  bool?
    | .bool b => some b
    | _ => none
  nat?
    | .int n => if 0 ≤ n then some n.toNat else none
    | _ => none
  items?
    | .list xs => some xs
    | _ => none
  members?
    | .list xs => some (.row xs)
    | .map entries => do
      let keyed ← entries.mapM fun (k, v) => match k with
        | .text s => some (Key.name s, v)
        | .int n => if 0 ≤ n then some (Key.place n.toNat, v) else none
        | _ => none
      return .keyed keyed
    | _ => none
  entries?
    | .map entries => entries.mapM fun (k, v) => match k with
      | .text s => some (s, v)
      | _ => none
    | _ => none
  data? := some

/-- A scalar that may be a truth value or a number: a plain one, or a literal
one that says so. -/
def isBare (type : String) (s : Yaml.Scalar) : Bool :=
  s.style == .plain || (s.style == .literal && s.tag == some (Yaml.coreTag type))

/-- The text of a scalar. -/
def scalarText? : Value → Option String
  | .scalar s => some s.text
  | _ => none

/-- Nothing is written where a collection is wanted. -/
def isBlankScalar : Value → Bool
  | .scalar s => s.text.isEmpty && s.style == .plain
  | _ => false

/-- Values as they are written, nested no deeper than `depth`. -/
def Form.written (depth : Nat) : Form Value where
  optional? v :=
    match v with
    | .scalar s =>
      if s.style != .plain then some (some v)
      else match s.tag with
        | none => some (if s.text.isEmpty || Yaml.isNull s.text then none else some v)
        | some t =>
          if t != Yaml.coreTag "null" then some (some v)
          else if Yaml.isNull s.text then some none
          else none
    | _ => some (some v)
  text? := scalarText?
  bool?
    | .scalar s => if isBare "bool" s then Yaml.bool? s.text else none
    | _ => none
  nat?
    | .scalar s => if isBare "int" s then Yaml.nat? s.text else none
    | _ => none
  items? v :=
    match v with
    | .list _ xs => some xs
    | _ => if isBlankScalar v then some [] else none
  members? v :=
    match v with
    | .list _ xs => some (.row xs)
    | .map _ entries => do
      return .keyed (← entries.mapM fun (k, v) => return (Key.name (← scalarText? k), v))
    | _ => if isBlankScalar v then some (.keyed []) else none
  entries? v :=
    match v with
    | .map _ entries => entries.mapM fun (k, v) => return (← scalarText? k, v)
    | _ => if isBlankScalar v then some [] else none
  data? v := v.data? depth

/-! ## Modes -/

/-- Keywords: words, or words by class. -/
def Keywords.ofData? : Data → Option Keywords
  | .text s => some (.words s)
  | d => do
    let entries ← Form.typed.entries? d
    return .ofClasses (← entries.mapM fun (k, v) => return (k, ← Form.typed.text? v))

/-- The embedded language: a name, or candidates. -/
def SubLanguage.ofData? : Data → Option SubLanguage
  | .text s => some (.name s)
  | .list xs => (xs.mapM Form.typed.text?).map .candidates
  | _ => none

/-- How the modes inside a mode are read: an item of `contains`, the mode
that follows, and a variant. -/
structure Inner (α : Type) where
  item? : α → Option ModeRef
  starts? : α → Option ModeRef
  variant? : α → Option Mode

/-- Sets a field to what a value gives. -/
def Mode.setField? {α : Type} (F : Form α) (I : Inner α) (m : Mode) (f : ModeField) (v : α) :
    Option Mode := do
  let text := (F.optional? v).bind fun o => o.mapM F.text?
  let data := fun {β : Type} (read : Data → Option β) =>
    (F.optional? v).bind fun o => o.mapM fun v => (F.data? v).bind read
  match f with
  | .className => return { m with className := ← text }
  | .begins => return { m with begins := ← text }
  | .ends => return { m with ends := ← text }
  | .beginKeywords => return { m with beginKeywords := ← text }
  | .keywords => return { m with keywords := ← data Keywords.ofData? }
  | .lexemes => return { m with lexemes := ← text }
  | .illegal => return { m with illegal := ← text }
  | .contains => return { m with contains := ← (← F.items? v).mapM I.item? }
  | .variants => return { m with variants := ← (← F.items? v).mapM I.variant? }
  | .starts => return { m with starts := ← (← F.optional? v).mapM I.starts? }
  | .endsWithParent => return { m with endsWithParent := ← F.bool? v }
  | .endsParent => return { m with endsParent := ← F.bool? v }
  | .excludeBegin => return { m with excludeBegin := ← F.bool? v }
  | .excludeEnd => return { m with excludeEnd := ← F.bool? v }
  | .returnBegin => return { m with returnBegin := ← F.bool? v }
  | .returnEnd => return { m with returnEnd := ← F.bool? v }
  | .skip => return { m with skip := ← F.bool? v }
  | .endSameAsBegin => return { m with endSameAsBegin := ← F.bool? v }
  | .relevance =>
    let n ← (← F.optional? v).mapM fun v => (F.nat? v).filter (· < 0x100000000)
    return { m with relevance := n }
  | .subLanguage => return { m with subLanguage := ← data SubLanguage.ofData? }

/-- The mode whose fields are given, none of them twice. -/
def Mode.ofFields? {α : Type} (F : Form α) (I : Inner α) (fs : List (ModeField × α)) :
    Option Mode :=
  if (fs.map Prod.fst).Nodup then fs.foldlM (fun m (f, v) => m.setField? F I f v) {} else none

/-- The field of a key; `none` for a key that says nothing. -/
def Key.field? : Key → Option ModeField
  | .name s => ModeField.ofName? s
  | .place n => ModeField.all[n]?

/-- A mode from a map or a list of its fields. Members with an unknown key are
left out, but a list may not be too long. -/
def Mode.ofMembers? {α : Type} (F : Form α) (I : Inner α) (v : α) : Option Mode := do
  match ← F.members? v with
  | .row xs =>
    if ModeField.all.length < xs.length then none
    else Mode.ofFields? F I (ModeField.all.zip xs)
  | .keyed xs =>
    Mode.ofFields? F I (xs.filterMap fun (k, v) => k.field?.map fun f => (f, v))

/-- A mode by its name, or written out. -/
def ModeRef.ofData? (mode? : Data → Option Mode) : Data → Option ModeRef
  | .text s => some (.named s)
  | d => (mode? d).map .inline

/-- A mode from data, nested no deeper than `depth`. -/
def Mode.ofData? : Nat → Data → Option Mode
  | 0, _ => none
  | depth + 1, d =>
    let ref := ModeRef.ofData? (Mode.ofData? depth)
    Mode.ofMembers? .typed ⟨ref, ref, Mode.ofData? depth⟩ d

/-- A mode from a value as it is written, nested no deeper than `depth`. -/
def Mode.ofValue? : Nat → Value → Option Mode
  | 0, _ => none
  | depth + 1, v =>
    let ref := fun (n : Nat) (v : Value) =>
      (v.data? n).bind (ModeRef.ofData? (Mode.ofData? (depth + 1)))
    Mode.ofMembers? (.written depth) ⟨ref (depth - 1), ref depth, Mode.ofValue? (depth - 1)⟩ v
termination_by depth => depth

/-! ## Grammars -/

/-- The fields of a grammar that are not fields of its root mode. -/
inductive GrammarField where
  | name | aliases | caseInsensitive | definitions
  deriving DecidableEq, Repr

/-- The field of a name. -/
def GrammarField.ofName? : String → Option GrammarField
  | "name" => some name
  | "aliases" => some aliases
  | "caseInsensitive" => some caseInsensitive
  | "definitions" => some definitions
  | _ => none

/-- Sets a field to what a value gives. -/
def Grammar.setField? {α : Type} (F : Form α) (mode? : α → Option Mode) (g : Grammar)
    (f : GrammarField) (v : α) : Option Grammar := do
  match f with
  | .name => return { g with name := ← (← F.optional? v).mapM F.text? }
  | .aliases => return { g with aliases := ← (← F.items? v).mapM F.text? }
  | .caseInsensitive => return { g with caseInsensitive := ← F.bool? v }
  | .definitions =>
    (← F.entries? v).foldlM (fun g (n, v) => return g.define n (← mode? v)) g

/-- How deep the values of a grammar may be nested. -/
def nestingLimit : Nat := 128

/-- The grammar that a map gives: its own fields, and next to them the fields
of its root mode. -/
def Grammar.ofForm? {α : Type} (F : Form α) (mode? : α → Option Mode) (v : α) :
    Option Grammar := do
  let entries ← F.entries? v
  let own := entries.filterMap fun (k, v) => (GrammarField.ofName? k).map fun f => (f, v)
  if !(own.map Prod.fst).Nodup then none
  let g ← own.foldlM (fun (g : Grammar) (f, v) => g.setField? F mode? f v) {}
  let others ← (entries.filter fun (k, _) => (GrammarField.ofName? k).isNone).mapM
    fun (k, v) => return (Data.text k, ← F.data? v)
  let root ← Mode.ofData? nestingLimit (.map others)
  return { g with root := root }

/-- The grammar that data gives. -/
def Grammar.ofData (d : Data) : Except ReadError Grammar :=
  match Grammar.ofForm? .typed (Mode.ofData? nestingLimit) d with
  | some g => .ok g
  | none => .error .shape

/-- The grammar that a YAML text gives. -/
def Grammar.ofYaml (text : String) : Except ReadError Grammar :=
  match Value.ofText text with
  | .error e => .error (.yaml e)
  | .ok v =>
    match Grammar.ofForm? (.written (nestingLimit - 1)) (Mode.ofValue? (nestingLimit - 2)) v with
    | some g => .ok g
    | none => .error .shape

end Highlighting
