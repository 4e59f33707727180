-- Scalars as they are written: plain, between quotes, or as a block. Lines are
-- folded: one line end between two lines is a space, and of several all but
-- the first are kept.
import Highlighting.Yaml.Cursor

namespace Highlighting.Yaml

/-! ## The space between words -/

/-- Blanks and line ends between two words of a scalar. -/
structure Gap where
  /-- The blanks, while the line has not ended. -/
  blanks : List Char := []
  /-- The first line end, and the ones after it. -/
  first : List Char := []
  more : List Char := []
  /-- The line has ended. -/
  broken : Bool := false

/-- What a gap counts as. -/
def Gap.text (g : Gap) : List Char :=
  if !g.broken then g.blanks
  else if g.first == ['\n'] then (if g.more.isEmpty then [' '] else g.more)
  else g.first ++ g.more

/-- Reads on to the next word. A tab may not indent a line to less than
`indent` columns. -/
def readGap (indent : Int) (gap : Gap) (c : Cursor) : Except Error (Gap × Cursor) :=
  iterate (fun (g, c) => do
    match c.peek? with
    | some x =>
      if isBlank x then
        if g.broken then
          if x == '\t' && c.column < indent then throw .tab
          return .inl (g, c.skip)
        return .inl ({ g with blanks := g.blanks ++ [x] }, c.skip)
      else if isBreak x then
        let (br, c) := c.breakLine
        if g.broken then return .inl ({ g with more := g.more ++ br }, c)
        return .inl ({ g with blanks := [], first := br, broken := true }, c)
      else return .inr (g, c)
    | none => return .inr (g, c)) (c.rest.length + 1) (gap, c)

/-! ## Plain scalars -/

/-- The characters that end a word of a flow collection. -/
def isFlowMark (c : Char) : Bool := c == ',' || c == '[' || c == ']' || c == '{' || c == '}'

/-- One word of a plain scalar. It ends at a blank, before a colon that ends
the key, and in a flow collection before what divides that. -/
def plainWord (flow : Bool) (c : Cursor) : Except Error (List Char × Cursor) :=
  iterate (fun ((word : List Char), (c : Cursor)) => do
    match c.peek? with
    | none => return .inr (word.reverse, c)
    | some x =>
      if isBlank x || isBreak x then return .inr (word.reverse, c)
      if x == ':' then
        if flow && c.seesAny (fun y => isFlowMark y || y == '?') 1 then throw .indicator
        if c.seesBlankOrEnd 1 then return .inr (word.reverse, c)
      if flow && isFlowMark x then return .inr (word.reverse, c)
      return .inl (x :: word, c.skip)) (c.rest.length + 1) ([], c)

/-- A scalar as read, and whether the line ended after it. -/
structure PlainScalar where
  text : List Char
  lineEnded : Bool
  next : Cursor

/-- A plain scalar. It goes on over lines that are indented by `indent`
columns at least. -/
def readPlain (flow : Bool) (indent : Int) (c : Cursor) : Except Error PlainScalar :=
  iterate (fun ((text : List Char), (gap : Gap), (c : Cursor)) => do
    let done : PlainScalar := ⟨text, gap.broken, c⟩
    if c.seesDocumentMark || c.sees '#' then return .inr done
    let (word, c) ← plainWord flow c
    let (text, gap) := if word.isEmpty then (text, gap) else (text ++ gap.text ++ word, {})
    if !(c.seesAny isBlank || c.seesAny isBreak) then return .inr ⟨text, gap.broken, c⟩
    let (gap, c) ← readGap indent gap c
    if !flow && c.column < indent then return .inr ⟨text, gap.broken, c⟩
    return .inl (text, gap, c)) (c.rest.length + 1) ([], {}, c)

/-! ## Quoted scalars -/

/-- The number that hexadecimal digits stand for. -/
def hex? (cs : List Char) : Option Nat :=
  cs.foldlM (fun n c =>
    if c.isDigit then some (n * 16 + (c.toNat - '0'.toNat))
    else if 'a' ≤ c && c ≤ 'f' then some (n * 16 + (c.toNat - 'a'.toNat + 10))
    else if 'A' ≤ c && c ≤ 'F' then some (n * 16 + (c.toNat - 'A'.toNat + 10))
    else none) 0

/-- The character with the code that the next `width` digits give. -/
def readCode (width : Nat) (c : Cursor) : Except Error (Char × Cursor) :=
  let digits := c.rest.take width
  match if digits.length == width then hex? digits else none with
  | some n => if n.isValidChar then .ok (Char.ofNat n, c.skip width) else .error .scalar
  | none => .error .scalar

/-- The character that a backslash and what follows it stand for; `c` is at
what follows. -/
def readEscape (c : Cursor) : Except Error (Char × Cursor) :=
  let is := fun (x : Char) => Except.ok (x, c.skip)
  match c.peek? with
  | some '0' => is '\u0000'
  | some 'a' => is '\u0007'
  | some 'b' => is '\u0008'
  | some 't' => is '\t'
  | some '\t' => is '\t'
  | some 'n' => is '\n'
  | some 'v' => is '\u000b'
  | some 'f' => is '\u000c'
  | some 'r' => is '\r'
  | some 'e' => is '\u001b'
  | some ' ' => is ' '
  | some '"' => is '"'
  | some '/' => is '/'
  | some '\\' => is '\\'
  | some 'N' => is '\u0085'
  | some '_' => is '\u00a0'
  | some 'L' => is '\u2028'
  | some 'P' => is '\u2029'
  | some 'x' => readCode 2 c.skip
  | some 'u' => readCode 4 c.skip
  | some 'U' => readCode 8 c.skip
  | _ => .error .scalar

/-- What ends a word of a quoted scalar. -/
inductive WordEnd where
  /-- The closing quote. -/
  | quote
  /-- A blank or a line end. -/
  | gap
  /-- A line end behind a backslash, which does not count as a space. -/
  | escapedBreak

/-- One word of a quoted scalar, up to its end. -/
def quotedWord (quote : Char) (c : Cursor) : Except Error (List Char × WordEnd × Cursor) :=
  iterate (fun ((word : List Char), (c : Cursor)) => do
    match c.peek? with
    | none => throw .scalar
    | some x =>
      if isBlank x || isBreak x then return .inr (word.reverse, .gap, c)
      if x == '\'' && quote == '\'' && c.sees '\'' 1 then return .inl ('\'' :: word, c.skip 2)
      if x == quote then return .inr (word.reverse, .quote, c)
      if x == '\\' && quote == '"' then
        if c.seesAny isBreak 1 then return .inr (word.reverse, .escapedBreak, c.skip.breakLine.2)
        let (y, c) ← readEscape c.skip
        return .inl (y :: word, c)
      return .inl (x :: word, c.skip)) (c.rest.length + 1) ([], c)

/-- A scalar between quotes; `c` is at the opening one. -/
def readQuoted (quote : Char) (c : Cursor) : Except Error (List Char × Cursor) :=
  iterate (fun ((text : List Char), (c : Cursor)) => do
    if c.seesDocumentMark then throw .scalar
    let (word, ending, c) ← quotedWord quote c
    let text := text ++ word
    match ending with
    | .quote => return .inr (text, c.skip)
    | .gap =>
      let (gap, c) ← readGap 0 {} c
      return .inl (text ++ gap.text, c)
    | .escapedBreak =>
      let (gap, c) ← readGap 0 { broken := true } c
      return .inl (text ++ gap.text, c)) (c.rest.length + 1) ([], c.skip)

/-! ## Block scalars -/

/-- What is kept of the line ends at the end of a block. -/
inductive Chomping where
  | strip
  | clip
  | keep
  deriving DecidableEq

/-- The mark of a block: how it ends, and by how much it is indented. -/
structure BlockMark where
  chomping : Chomping := .clip
  increment : Option Nat := none

/-- The sign that says what is kept. -/
def chomping? (c : Cursor) : Option Chomping :=
  match c.peek? with
  | some '+' => some .keep
  | some '-' => some .strip
  | _ => none

/-- The digit that says how much a block is indented; it is not zero. -/
def increment? (c : Cursor) : Except Error (Option Nat) :=
  match c.peek? with
  | some x =>
    if x == '0' then .error .scalar
    else if x.isDigit then .ok (some (x.toNat - '0'.toNat))
    else .ok none
  | none => .ok none

/-- Reads the mark of a block, in either order. -/
def readBlockMark (c : Cursor) : Except Error (BlockMark × Cursor) := do
  match chomping? c with
  | some ch =>
    let c := c.skip
    match ← increment? c with
    | some n => return (⟨ch, some n⟩, c.skip)
    | none => return (⟨ch, none⟩, c)
  | none =>
    match ← increment? c with
    | some n =>
      let c := c.skip
      match chomping? c with
      | some ch => return (⟨ch, some n⟩, c.skip)
      | none => return (⟨.clip, some n⟩, c)
    | none => return ({}, c)

/-- Reads empty lines and the indentation of the next one. If the indentation
of the block is not known yet it is that of the line that is indented most,
and `least` at least. -/
def readBlockBreaks (least : Nat) (indent : Option Nat) (c : Cursor) :
    Except Error (List Char × Nat × Cursor) :=
  iterate (fun ((breaks : List Char), (most : Nat), (c : Cursor)) => do
    let room := match indent with
      | some n => n - c.column
      | none => c.rest.length
    let spaces := ((c.rest.take room).takeWhile (· == ' ')).length
    let c := c.skip spaces
    let most := max most c.column
    if (indent.all (c.column < ·)) && c.sees '\t' then throw .tab
    if c.seesAny isBreak then
      let (br, c) := c.breakLine
      return .inl (breaks ++ br, most, c)
    return .inr (breaks, indent.getD (max most least), c)) (c.rest.length + 1) ([], 0, c)

/-- The lines of a block that have been read. -/
structure BlockLines where
  text : List Char := []
  /-- The line end after the last line, and the empty lines after that. -/
  lineEnd : List Char := []
  breaks : List Char := []
  /-- The last line starts with a blank; next to it no line is folded. -/
  blankStart : Bool := false

/-- Puts the space before the next line. -/
def BlockLines.join (b : BlockLines) (folded blankStart : Bool) : List Char :=
  if folded && b.lineEnd == ['\n'] && !b.blankStart && !blankStart then
    b.text ++ (if b.breaks.isEmpty then [' '] else []) ++ b.breaks
  else b.text ++ b.lineEnd ++ b.breaks

/-- A block scalar; `c` is behind its indicator, and `parent` is the
indentation of the collection it stands in. -/
def readBlock (folded : Bool) (parent : Int) (c : Cursor) : Except Error (List Char × Cursor) := do
  let (mark, c) ← readBlockMark c
  let c := c.skipBlanks.skipComment
  if !c.seesBreakOrEnd then throw .scalar
  let c := c.breakLine.2
  let base := (max parent 0).toNat
  let (breaks, indent, c) ←
    readBlockBreaks (max (parent + 1) 1).toNat (mark.increment.map (base + ·)) c
  iterate (fun ((b : BlockLines), (c : Cursor)) => do
    if c.column == indent && !c.seesEnd then
      let blankStart := c.seesAny isBlank
      let text := b.join folded blankStart
      let (line, c) := c.span (!isBreak ·)
      let (lineEnd, c) := c.breakLine
      let (breaks, _, c) ← readBlockBreaks 0 (some indent) c
      return .inl (⟨text ++ line, lineEnd, breaks, blankStart⟩, c)
    let text := match mark.chomping with
      | .strip => b.text
      | .clip => b.text ++ b.lineEnd
      | .keep => b.text ++ b.lineEnd ++ b.breaks
    return .inr (text, c)) (c.rest.length + 2) (⟨[], [], breaks, false⟩, c)

end Highlighting.Yaml
