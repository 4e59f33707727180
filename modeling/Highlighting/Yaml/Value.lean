-- The value that a YAML text stands for: a tree of scalars, lists and maps, in
-- the order of the text. Aliases have been replaced by what they name.
import Highlighting.Yaml.Tokens

namespace Highlighting.Yaml

/-- A scalar as written. -/
structure Scalar where
  text : String
  style : Style
  tag : Option String := none
  deriving DecidableEq, Repr

/-- A value. -/
inductive Value where
  | scalar (s : Scalar)
  | list (tag : Option String) (items : List Value)
  | map (tag : Option String) (entries : List (Value × Value))
  /-- An alias inside the value that it names, which nobody can read. -/
  | cyclic

/-- What stands where a value is left out. -/
def Value.absent : Value := .scalar ⟨"", .plain, none⟩

/-! ## The state of reading -/

/-- A value that an anchor names, and how many aliases it was read through. -/
structure Anchored where
  value : Value
  aliases : Nat

/-- The tokens that are left, and what the ones before them declared. -/
structure Reading where
  tokens : List Token
  /-- What the handles of tags stand for. -/
  handles : List (String × String) := []
  /-- The anchors, the latest first, each with its number. -/
  anchors : List (String × Nat) := []
  /-- The values of the anchors by number, as far as they are complete. -/
  values : List (Nat × Anchored) := []
  /-- How many nodes began or ended, and how many aliases were read. -/
  events : Nat := 0
  aliases : Nat := 0

/-- Reading tokens, which can fail. -/
abbrev Read := StateT Reading (Except Error)

namespace Read

def next? : Read (Option Token) := return (← get).tokens.head?

def skip : Read Unit := modify fun r => { r with tokens := r.tokens.drop 1 }

/-- Skips a token if it is `t`. -/
def accept (t : Token) : Read Bool := do
  if (← next?) == some t then
    skip
    return true
  return false

/-- Skips a token, which has to be `t`. -/
def expect (t : Token) : Read Unit := do
  if !(← accept t) then throw .node

def count (n : Nat) : Read Unit := modify fun r => { r with events := r.events + n }

/-- A value that is left out. -/
def absent : Read Value := do
  count 1
  return .absent

/-- The tag for a handle and its suffix. -/
def tagText (handle suffix : String) : Read String := do
  if handle.isEmpty then return suffix
  match (← get).handles.lookup handle with
  | some start => return start ++ suffix
  | none => throw .tag

/-- The value of an anchor that was declared before. -/
def dealias (name : String) : Read Value := do
  match (← get).anchors.lookup name with
  | none => throw .unknownAlias
  | some n =>
    let found := (← get).values.lookup n
    let inner := (found.map (·.aliases)).getD 0
    modify fun r => { r with aliases := r.aliases + 1 + inner }
    return (found.map (·.value)).getD .cyclic

/-- What may stand before a node. -/
structure Properties where
  anchor : Option String := none
  tag : Option String := none

/-- An anchor and a tag, in either order. -/
def properties : Read Properties := do
  let anchor : Read (Option String) := do
    match ← next? with
    | some (.anchor name) =>
      skip
      return some name
    | _ => return none
  let tag : Read (Option String) := do
    match ← next? with
    | some (.tag handle suffix) =>
      skip
      return some (← tagText handle suffix)
    | _ => return none
  match ← anchor with
  | some a => return ⟨some a, ← tag⟩
  | none =>
    let t ← tag
    return ⟨← anchor, t⟩

/-- Reads a node that an anchor names, if it has one. -/
def anchored (name : Option String) (node : Read Value) : Read Value := do
  match name with
  | none => node
  | some a =>
    let before ← get
    let n := before.anchors.length
    set { before with anchors := (a, n) :: before.anchors }
    let v ← node
    modify fun r => { r with values := (n, ⟨v, r.aliases - before.aliases⟩) :: r.values }
    return v

end Read

open Read

/-- What kind of token comes next. -/
def nextIs (ts : List Token) : Read Bool := do
  return match ← next? with
    | some t => ts.contains t
    | none => false

/-! ## Nodes -/

mutual

/-- A node. In a block, block collections may stand; `dashes` says that a list
may stand whose dashes are not indented. -/
def node (fuel : Nat) (block dashes : Bool) : Read Value := do
  match fuel with
  | 0 => throw .node
  | fuel + 1 =>
    match ← next? with
    | some (.aliasOf name) =>
      skip
      count 1
      dealias name
    | _ =>
      let p ← properties
      anchored p.anchor (content fuel block dashes p)

/-- A node without what may stand before it. -/
def content (fuel : Nat) (block dashes : Bool) (p : Properties) : Read Value := do
  match fuel with
  | 0 => throw .node
  | fuel + 1 =>
    match ← next? with
    | some (.scalar text style) =>
      skip
      count 1
      return .scalar ⟨text, style, p.tag.filter (· != "!")⟩
    | some .flowListStart =>
      skip
      count 2
      return .list p.tag (← flowItems fuel true)
    | some .flowMapStart =>
      skip
      count 2
      return .map p.tag (← flowEntries fuel true)
    | t =>
      if dashes && t == some .blockEntry then
        count 2
        return .list p.tag (← dashItems fuel)
      else if block && t == some .blockListStart then
        skip
        count 2
        return .list p.tag (← blockItems fuel)
      else if block && t == some .blockMapStart then
        skip
        count 2
        return .map p.tag (← blockEntries fuel)
      else if p.anchor.isSome || p.tag.isSome then
        count 1
        return .scalar ⟨"", .plain, p.tag⟩
      else throw .node

/-- The items of a block list, and its end. -/
def blockItems (fuel : Nat) : Read (List Value) := do
  match fuel with
  | 0 => throw .node
  | fuel + 1 =>
    if ← accept .blockEntry then
      let v ← if ← nextIs [.blockEntry, .blockEnd] then absent else node fuel true false
      return v :: (← blockItems fuel)
    else
      expect .blockEnd
      return []

/-- The items of a list whose dashes are not indented. -/
def dashItems (fuel : Nat) : Read (List Value) := do
  match fuel with
  | 0 => throw .node
  | fuel + 1 =>
    if ← accept .blockEntry then
      let v ← if ← nextIs [.blockEntry, .key, .value, .blockEnd] then absent else node fuel true false
      return v :: (← dashItems fuel)
    else return []

/-- The entries of a block map, and its end. -/
def blockEntries (fuel : Nat) : Read (List (Value × Value)) := do
  match fuel with
  | 0 => throw .node
  | fuel + 1 =>
    let part := do
      if ← nextIs [.key, .value, .blockEnd] then absent else node fuel true true
    if ← accept .key then
      let k ← part
      let v ← if ← accept .value then part else absent
      return (k, v) :: (← blockEntries fuel)
    else
      expect .blockEnd
      return []

/-- The items of a flow list, and its end. An item may be a map of one entry
without braces; if its key is left out, the token after the question mark
goes too. -/
def flowItems (fuel : Nat) (first : Bool) : Read (List Value) := do
  match fuel with
  | 0 => throw .node
  | fuel + 1 =>
    if ← accept .flowListEnd then return []
    if !first then
      expect .flowEntry
    if ← accept .key then
      count 2
      let k ← do
        if ← nextIs [.value, .flowEntry, .flowListEnd] then
          skip
          absent
        else node fuel false false
      let v ← do
        if !(← accept .value) || (← nextIs [.flowEntry, .flowListEnd]) then absent
        else node fuel false false
      return .map none [(k, v)] :: (← flowItems fuel false)
    else if ← accept .flowListEnd then return []
    else
      let v ← node fuel false false
      return v :: (← flowItems fuel false)

/-- The entries of a flow map, and its end. A key may stand alone. -/
def flowEntries (fuel : Nat) (first : Bool) : Read (List (Value × Value)) := do
  match fuel with
  | 0 => throw .node
  | fuel + 1 =>
    if ← accept .flowMapEnd then return []
    if !first then
      expect .flowEntry
    if ← accept .key then
      let k ← if ← nextIs [.value, .flowEntry, .flowMapEnd] then absent else node fuel false false
      let v ← do
        if !(← accept .value) || (← nextIs [.flowEntry, .flowMapEnd]) then absent
        else node fuel false false
      return (k, v) :: (← flowEntries fuel false)
    else if ← accept .flowMapEnd then return []
    else
      let k ← node fuel false false
      let v ← absent
      return (k, v) :: (← flowEntries fuel false)

end

/-! ## Documents -/

/-- The directives before a document: one version at most, and handles that
differ. -/
def directives (fuel : Nat) (version : Bool) : Read Unit := do
  match fuel with
  | 0 => throw .directive
  | fuel + 1 =>
    match ← next? with
    | some (.version major minor) =>
      if version || major != 1 || !(minor == 1 || minor == 2) then throw .directive
      skip
      directives fuel true
    | some (.tagHandle handle start) =>
      if ((← get).handles.lookup handle).isSome then throw .directive
      skip
      modify fun r => { r with handles := (handle, start) :: r.handles }
      directives fuel version
    | _ =>
      modify fun r => { r with
        handles := r.handles ++ [("!", "!"), ("!!", "tag:yaml.org,2002:")] }

/-- Skips marks that end documents. -/
def documentEnds : Nat → Read Unit
  | 0 => return ()
  | fuel + 1 => do
    if ← accept .documentEnd then documentEnds fuel

/-- The one document of a text. A text without any stands for what is left
out. -/
def document (fuel : Nat) : Read Value := do
  match ← next? with
  | none => return .absent
  | some t =>
    let explicit := match t with
      | .version .. => true
      | .tagHandle .. => true
      | .documentStart => true
      | _ => false
    directives fuel false
    if explicit then
      expect .documentStart
    let ended := match ← next? with
      | none => true
      | some (.version ..) => true
      | some (.tagHandle ..) => true
      | some .documentStart => true
      | some .documentEnd => true
      | _ => false
    let v ← if explicit && ended then absent else node fuel true false
    documentEnds fuel
    if (← next?).isSome then throw .documents
    let r ← get
    if 100 * r.events < r.aliases then throw .repetition
    return v

/-- The value of a text. -/
def Value.ofText (text : String) : Except Error Value := do
  let ts ← tokens text
  let (v, _) ← (document (4 * (ts.length + 1))).run { tokens := ts }
  return v

end Highlighting.Yaml
