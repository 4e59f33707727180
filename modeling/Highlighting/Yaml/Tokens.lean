-- The tokens of a YAML text. A key is known to be one only when its colon
-- comes, so its token is put in where the key began; and where the
-- indentation changes, a block starts or ends.
import Highlighting.Yaml.Scalar

namespace Highlighting.Yaml

/-! ## Directives, tags and names -/

/-- A number of one to nine digits. -/
def readNumber (c : Cursor) : Except Error (Nat × Cursor) :=
  let (digits, next) := c.span Char.isDigit
  if digits.isEmpty || 9 < digits.length then .error .directive
  else .ok (digits.foldl (fun n d => n * 10 + (d.toNat - '0'.toNat)) 0, next)

/-- A handle: exclamation marks around a name, or one of them. -/
def readHandle (c : Cursor) : Except Error (String × Cursor) :=
  if !c.sees '!' then .error .tag
  else
    let (name, next) := c.skip.span isNameChar
    if next.sees '!' then .ok (String.ofList ('!' :: name ++ ['!']), next.skip)
    else .ok (String.ofList ('!' :: name), next)

/-- A character that a tag may hold as it is. -/
def isTagChar (wide : Bool) (c : Char) : Bool :=
  isNameChar c || ";/?:@&=+$.!~*'()".toList.contains c || (wide && (c == ',' || c == '[' || c == ']'))

/-- One byte, as a percent sign and two digits. -/
def readByte (c : Cursor) : Except Error (Nat × Cursor) :=
  match if c.sees '%' && !c.seesEnd 2 then hex? (c.skip.rest.take 2) else none with
  | some n => .ok (n, c.skip 3)
  | none => .error .tag

/-- A character of a tag as its bytes. -/
def readBytes (c : Cursor) : Except Error (Char × Cursor) := do
  let (lead, c) ← readByte c
  let following := fun (n : Nat) (first : Nat) =>
    n.foldM (fun _ _ ((code : Nat), (c : Cursor)) => do
      let (b, c) ← readByte c
      if b / 64 != 2 then throw Error.tag
      return (code * 64 + b % 64, c)) (first, c)
  let (code, c) ←
    if lead < 0x80 then pure (lead, c)
    else if lead / 32 == 6 then following 1 (lead % 32)
    else if lead / 16 == 14 then following 2 (lead % 16)
    else if lead / 8 == 30 then following 3 (lead % 8)
    else throw Error.tag
  return (Char.ofNat code, c)

/-- The characters of a tag from here on. -/
def readTagText (wide : Bool) (c : Cursor) : Except Error (String × Cursor) :=
  iterate (fun ((text : List Char), (c : Cursor)) => do
    if c.sees '%' then
      let (x, c) ← readBytes c
      return .inl (x :: text, c)
    match c.peek? with
    | some x =>
      if isTagChar wide x then return .inl (x :: text, c.skip)
      return .inr (String.ofList text.reverse, c)
    | none => return .inr (String.ofList text.reverse, c)) (c.rest.length + 1) ([], c)

/-- A tag: its handle and what follows that. -/
def readTag (flow : Bool) (c : Cursor) : Except Error (Token × Cursor) := do
  let (token, c) ← do
    if c.sees '<' 1 then
      let (text, c) ← readTagText true (c.skip 2)
      if text.isEmpty || !c.sees '>' then throw .tag
      pure (Token.tag "" text, c.skip)
    else
      let (handle, c) ← readHandle c
      if 1 < handle.length && handle.endsWith "!" then
        let (text, c) ← readTagText false c
        if text.isEmpty then throw .tag
        pure (Token.tag handle text, c)
      else
        let (text, c) ← readTagText false c
        let text := String.ofList (handle.toList.drop 1) ++ text
        pure (if text.isEmpty then Token.tag "" "!" else Token.tag "!" text, c)
  if !(c.seesBlankOrEnd || (flow && c.sees ',')) then throw .tag
  return (token, c)

/-- A line that tells about the document; `c` is at its percent sign. -/
def readDirective (c : Cursor) : Except Error (Token × Cursor) := do
  let (name, c) := c.skip.span isNameChar
  if !c.seesBlankOrEnd then throw .directive
  let c := c.skipBlanks
  let (token, c) ← match String.ofList name with
    | "YAML" => do
      let (major, c) ← readNumber c
      if !c.sees '.' then throw .directive
      let (minor, c) ← readNumber c.skip
      pure (Token.version major minor, c)
    | "TAG" => do
      let (handle, c) ← readHandle c
      if handle != "!" && !(handle.endsWith "!") then throw .directive
      if !c.seesAny isBlank then throw .directive
      let (start, c) ← readTagText true c.skipBlanks
      if start.isEmpty || !c.seesBlankOrEnd then throw .directive
      pure (Token.tagHandle handle start, c)
    | _ => throw .directive
  let c := c.skipBlanks.skipComment
  if !c.seesBreakOrEnd then throw .directive
  return (token, c.breakLine.2)

/-- The name of an anchor; `c` is behind its sign. -/
def readName (c : Cursor) : Except Error (String × Cursor) :=
  let (name, next) := c.span isNameChar
  let closed := next.seesBlankOrEnd || next.seesAny (fun x => "?:,]\x7d%@`".toList.contains x)
  if name.isEmpty || !closed then .error .anchor else .ok (String.ofList name, next)

/-! ## Keys and indentation -/

/-- A token that may turn out to be a key. -/
structure Candidate where
  /-- No other token may stand here, so the colon has to come. -/
  required : Bool
  /-- How many tokens there are before it. -/
  place : Nat
  index : Nat
  line : Nat
  column : Nat

/-- The tokens so far, and what decides about the next one. -/
structure Scanner where
  cursor : Cursor
  tokens : Array Token := #[]
  /-- The indentation of the block, and of the blocks around it. -/
  indent : Int := -1
  outer : List Int := []
  keyAllowed : Bool := true
  /-- The candidate outside flow collections. -/
  candidate : Option Candidate := none
  /-- The candidates of the flow collections around, innermost first. -/
  flow : List (Option Candidate) := []

namespace Scanner

def inFlow (s : Scanner) : Bool := !s.flow.isEmpty

/-- The candidate of the innermost collection. -/
def current (s : Scanner) : Option Candidate :=
  match s.flow with
  | c :: _ => c
  | [] => s.candidate

def setCurrent (s : Scanner) (c : Option Candidate) : Scanner :=
  match s.flow with
  | _ :: rest => { s with flow := c :: rest }
  | [] => { s with candidate := c }

def push (s : Scanner) (t : Token) : Scanner := { s with tokens := s.tokens.push t }

/-- Puts a token before those from `place` on. -/
def insert (s : Scanner) (place : Nat) (t : Token) : Scanner :=
  { s with tokens := s.tokens.insertIdxIfInBounds place t }

/-- A key ends on its line, and within 1024 characters of its colon. -/
def checkStale (s : Scanner) (c : Option Candidate) : Except Error (Option Candidate) :=
  match c with
  | some k =>
    if k.line < s.cursor.line || k.index + 1024 < s.cursor.index then
      if k.required then .error .indicator else .ok none
    else .ok (some k)
  | none => .ok none

/-- Drops the candidates whose colon can no longer come. -/
def dropStale (s : Scanner) : Except Error Scanner := do
  let candidate ← s.checkStale s.candidate
  let flow ← s.flow.mapM s.checkStale
  return { s with candidate := candidate, flow := flow }

/-- Gives up the candidate of the innermost collection. -/
def dropCurrent (s : Scanner) : Except Error Scanner :=
  if s.current.any (·.required) then .error .indicator else .ok (s.setCurrent none)

/-- Makes what starts here the candidate, if a key may start here. -/
def saveCandidate (s : Scanner) : Except Error Scanner := do
  if !s.keyAllowed then return s
  let c := s.cursor
  let required := !s.inFlow && s.indent == c.column
  return (← s.dropCurrent).setCurrent (some ⟨required, s.tokens.size, c.index, c.line, c.column⟩)

/-- Starts a block at a column that is further in than the block around it. -/
def roll (s : Scanner) (column : Nat) (place : Nat) (t : Token) : Scanner :=
  if !s.inFlow && s.indent < column then
    { s with indent := column, outer := s.indent :: s.outer,
             tokens := s.tokens.insertIdxIfInBounds place t }
  else s

/-- Ends the blocks that are further in than a column. -/
def unroll (s : Scanner) (column : Int) : Scanner :=
  if s.inFlow then s else go s.outer s
where
  go : List Int → Scanner → Scanner
    | o :: rest, s =>
      if column < s.indent then
        go rest { s with indent := o, outer := rest, tokens := s.tokens.push .blockEnd }
      else s
    | [], s => s

/-! ## The next token -/

/-- Past white space and comments. A tab counts as white space only where no
key may start. -/
def skipSpace (s : Scanner) : Except Error Scanner :=
  iterate (fun (s : Scanner) => do
    let tabs := s.inFlow || !s.keyAllowed
    let c := (s.cursor.span (fun x => x == ' ' || (tabs && x == '\t'))).2.skipComment
    if c.seesAny isBreak then
      return .inl { s with cursor := c.breakLine.2, keyAllowed := s.keyAllowed || !s.inFlow }
    return .inr { s with cursor := c }) (s.cursor.rest.length + 1) s

/-- A token of `n` characters. -/
def mark (s : Scanner) (n : Nat) (t : Token) : Scanner :=
  { s with cursor := s.cursor.skip n, tokens := s.tokens.push t }

/-- What comes outside all blocks: directives and the marks of documents. -/
def leaveBlocks (s : Scanner) : Except Error Scanner := do
  let s ← (s.unroll (-1)).dropCurrent
  return { s with keyAllowed := false }

def openFlow (s : Scanner) (t : Token) : Except Error Scanner := do
  let s ← s.saveCandidate
  return { s.mark 1 t with flow := none :: s.flow, keyAllowed := true }

def closeFlow (s : Scanner) (t : Token) : Except Error Scanner := do
  let s ← s.dropCurrent
  return { s.mark 1 t with flow := s.flow.drop 1, keyAllowed := false }

/-- An entry of a block list, or a key behind its question mark. -/
def blockMark (s : Scanner) (start t : Token) (keyAllowed : Bool) : Except Error Scanner := do
  if !s.inFlow && !s.keyAllowed then throw .indicator
  let s ← (s.roll s.cursor.column s.tokens.size start).dropCurrent
  return { s.mark 1 t with keyAllowed := keyAllowed }

/-- A colon. The candidate, if there is one, is its key. -/
def valueMark (s : Scanner) : Except Error Scanner := do
  match s.current with
  | some k =>
    let s := ((s.insert k.place .key).roll k.column k.place .blockMapStart).setCurrent none
    return { s.mark 1 .value with keyAllowed := false }
  | none =>
    if !s.inFlow && !s.keyAllowed then throw .indicator
    let s := s.roll s.cursor.column s.tokens.size .blockMapStart
    return { s.mark 1 .value with keyAllowed := !s.inFlow }

/-- A token that may be a key, or stand before one. -/
def keyLike (s : Scanner) (read : Cursor → Except Error (Token × Cursor)) : Except Error Scanner := do
  let s ← s.saveCandidate
  let (t, c) ← read s.cursor
  return { s.push t with cursor := c, keyAllowed := false }

def block (s : Scanner) (folded : Bool) : Except Error Scanner := do
  let s ← s.dropCurrent
  let (text, c) ← readBlock folded s.indent s.cursor.skip
  let style := if folded then Style.folded else Style.literal
  return { s.push (.scalar (String.ofList text) style) with cursor := c, keyAllowed := true }

def plain (s : Scanner) : Except Error Scanner := do
  let s ← s.saveCandidate
  let p ← readPlain s.inFlow (s.indent + 1) s.cursor
  return { s.push (.scalar (String.ofList p.text) .plain) with
    cursor := p.next, keyAllowed := p.lineEnded }

/-- The characters with which no plain scalar starts, unless what follows
them lets it. -/
def isIndicator (c : Char) : Bool := "-?:,[]\x7b\x7d#&*!|>'\"%@`".toList.contains c

/-- Reads the next token; `none` at the end of the text. -/
def step (s : Scanner) : Except Error (Scanner ⊕ Array Token) := do
  let s ← s.skipSpace
  let s := (← s.dropStale).unroll s.cursor.column
  let c := s.cursor
  let named := fun (make : String → Token) (c : Cursor) => do
    let (name, next) ← readName c.skip
    return (make name, next)
  let quoted := fun (quote : Char) (c : Cursor) => do
    let (text, next) ← readQuoted quote c
    return (Token.scalar (String.ofList text) .quoted, next)
  match c.peek? with
  | none => return .inr (← s.leaveBlocks).tokens
  | some x =>
    let wordEnds := c.seesBlankOrEnd 1
    .inl <$>
      if c.column == 0 && x == '%' then do
        let s ← s.leaveBlocks
        let (t, c) ← readDirective s.cursor
        return { s.push t with cursor := c }
      else if c.seesMark '-' then do return (← s.leaveBlocks).mark 3 .documentStart
      else if c.seesMark '.' then do return (← s.leaveBlocks).mark 3 .documentEnd
      else if x == '[' then s.openFlow .flowListStart
      else if x == '{' then s.openFlow .flowMapStart
      else if x == ']' then s.closeFlow .flowListEnd
      else if x == '}' then s.closeFlow .flowMapEnd
      else if x == ',' then do return { (← s.dropCurrent).mark 1 .flowEntry with keyAllowed := true }
      else if x == '-' && wordEnds then s.blockMark .blockListStart .blockEntry true
      else if x == '?' && (s.inFlow || wordEnds) then s.blockMark .blockMapStart .key !s.inFlow
      else if x == ':' && (s.inFlow || wordEnds) then s.valueMark
      else if x == '*' then s.keyLike (named .aliasOf)
      else if x == '&' then s.keyLike (named .anchor)
      else if x == '!' then s.keyLike (readTag s.inFlow)
      else if x == '|' && !s.inFlow then s.block false
      else if x == '>' && !s.inFlow then s.block true
      else if x == '\'' then s.keyLike (quoted '\'')
      else if x == '"' then s.keyLike (quoted '"')
      else if (!isBlank x && !isIndicator x) || (x == '-' && !c.seesAny isBlank 1) ||
          (!s.inFlow && (x == '?' || x == ':') && !wordEnds) then s.plain
      else throw .token

end Scanner

/-- The tokens of a text. A byte order mark may stand before it. -/
def tokens (text : String) : Except Error (List Token) := do
  let start : Cursor := { rest := text.toList }
  if !start.rest.all isAllowed then throw .character
  let start := if start.sees '\ufeff' then start.skip else start
  let ts ← iterate Scanner.step (start.rest.length + 2) { cursor := start }
  return ts.toList

end Highlighting.Yaml
