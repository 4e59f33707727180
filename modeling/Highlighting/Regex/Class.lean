-- Reading the text of a character class, and the escapes that stand for one
-- character.
import Highlighting.Regex.CharSet
import Highlighting.Regex.Error

namespace Highlighting.Regex

/-- The options in force at a place of a pattern. -/
structure Options where
  /-- Letters match in either case. -/
  anyCase : Bool := false
  /-- A dot matches a line end too. -/
  dotAll : Bool := false
  /-- Blanks and comments in the pattern mean nothing. -/
  extended : Bool := false
  asciiWord : Bool := false
  asciiDigit : Bool := false
  asciiSpace : Bool := false
  asciiBracket : Bool := false
  deriving DecidableEq, Repr

namespace Options

/-- The set of a property, within ASCII if the options say so. -/
def restrict (ascii : Bool) (p : Property) : CharSet :=
  if ascii then .asciiOnly p else .property p

def word (o : Options) : CharSet := restrict (o.asciiWord || o.asciiBracket) .word

/-- The word characters outside classes. -/
def wordPart (o : Options) : CharSet := restrict (o.asciiWord || o.asciiBracket) .wordPart

def digit (o : Options) : CharSet := restrict (o.asciiDigit || o.asciiBracket) .digit

def space (o : Options) : CharSet := restrict (o.asciiSpace || o.asciiBracket) .space

end Options

/-! ## Numbers -/

/-- The value of a digit below the base. -/
def digitValue? (base : Nat) (c : Char) : Option Nat :=
  let v :=
    if c.isDigit then some (c.toNat - '0'.toNat)
    else if 'a' ≤ c && c ≤ 'f' then some (c.toNat - 'a'.toNat + 10)
    else if 'A' ≤ c && c ≤ 'F' then some (c.toNat - 'A'.toNat + 10)
    else none
  v.filter (· < base)

/-- Reads at most so many digits: how many there were, their value, and the
rest of the text. -/
def readDigits (base : Nat) : Nat → List Char → Nat → Nat → Nat × Nat × List Char
  | 0, cs, count, value => (count, value, cs)
  | _ + 1, [], count, value => (count, value, [])
  | n + 1, c :: cs, count, value =>
    match digitValue? base c with
    | some d => readDigits base n cs (count + 1) (value * base + d)
    | none => (count, value, c :: cs)

/-- The character with a code, if there is one. -/
def charOfCode (n : Nat) : Except ReadError Char :=
  if 0x10ffff < n then .error .codeTooBig
  else if 0xd800 ≤ n && n ≤ 0xdfff then .error .codeInvalid
  else .ok (Char.ofNat n)

/-! ## Escapes for one character -/

/-- Reads the further bytes of a character that is written byte by byte, each
as `\x` and two digits. -/
def readBytes : Nat → Nat → List Char → Except ReadError (Char × List Char)
  | 0, code, cs => do return (← charOfCode code, cs)
  | n + 1, code, '\\' :: 'x' :: cs =>
    let (count, value, cs) := readDigits 16 2 cs 0 0
    if count = 2 && 0x80 ≤ value && value < 0xc0 then readBytes n (code * 64 + (value - 0x80)) cs
    else .error .bytesTooShort
  | _ + 1, _, _ => .error .bytesTooShort

/-- The character whose first byte is given. -/
def readByte (b : Nat) (cs : List Char) : Except ReadError (Char × List Char) :=
  if b < 0x80 then .ok (Char.ofNat b, cs)
  else if 0xc2 ≤ b && b < 0xe0 then readBytes 1 (b - 0xc0) cs
  else if 0xe0 ≤ b && b < 0xf0 then readBytes 2 (b - 0xe0) cs
  else if 0xf0 ≤ b && b < 0xf5 then readBytes 3 (b - 0xf0) cs
  else .error .bytesTooShort

/-- A code between braces, with the rest after the closing brace; `none` if
the braces hold no code. -/
def readBraced (base limit : Nat) (cs : List Char) :
    Except ReadError (Option (Char × List Char)) := do
  let (count, value, rest) := readDigits base limit cs 0 0
  if count = 0 then return none
  match rest with
  | [] => throw .codeInvalid
  | c :: rest =>
    if c = '\x7d' then return some (← charOfCode value, rest)
    else if (digitValue? base c).isSome then throw .codeTooLong
    else throw .codeInvalid

/-- The letters that stand for a control character after a backslash. -/
def controlLetter? : Char → Option Char
  | 'n' => some '\n'
  | 't' => some '\t'
  | 'r' => some '\r'
  | 'f' => some '\x0c'
  | 'a' => some '\x07'
  | 'v' => some '\x0b'
  | 'e' => some '\x1b'
  | _ => none

/-- The control character of a key. -/
def control (c : Char) : Char :=
  if c = '?' then '\x7f' else Char.ofNat (c.toNat % 32)

/-- Reads what follows a backslash when it stands for one character: a code,
a control character, or the character itself. The fuel bounds the nesting of
control keys. -/
def readCharEscape : Nat → List Char → Except ReadError (Char × List Char)
  | _, [] => .error .endAtEscape
  | 0, c :: cs => .ok (c, cs)
  | fuel + 1, c :: cs =>
    match c with
    | 'x' =>
      match cs with
      | '\x7b' :: rest => do
        match ← readBraced 16 8 rest with
        | some r => return r
        | none => return ('x', cs)
      | _ =>
        let (_, value, rest) := readDigits 16 2 cs 0 0
        readByte value rest
    | 'o' =>
      match cs with
      | '\x7b' :: rest => do
        match ← readBraced 8 11 rest with
        | some r => return r
        | none => return ('o', cs)
      | _ => .ok ('o', cs)
    | 'u' =>
      let (count, value, rest) := readDigits 16 4 cs 0 0
      if count < 4 then .error .codeTooShort else do return (← charOfCode value, rest)
    | 'c' =>
      match cs with
      | [] => .error .endAtControl
      | '\\' :: rest => do
        let (d, rest) ← readCharEscape fuel rest
        return (control d, rest)
      | d :: rest => .ok (control d, rest)
    | 'C' =>
      match cs with
      | [] => .error .endAtControl
      | '-' :: [] => .error .endAtControl
      | '-' :: '\\' :: rest => do
        let (d, rest) ← readCharEscape fuel rest
        return (control d, rest)
      | '-' :: d :: rest => .ok (control d, rest)
      | _ => .error .invalidControl
    | 'M' =>
      match cs with
      | [] => .error .endAtMeta
      | '-' :: [] => .error .endAtMeta
      | '-' :: '\\' :: rest => do
        let (d, rest) ← readCharEscape fuel rest
        return (Char.ofNat (d.toNat % 128 + 128), rest)
      | '-' :: d :: rest => .ok (Char.ofNat (d.toNat % 128 + 128), rest)
      | _ => .error .invalidMeta
    | c => .ok ((controlLetter? c).getD c, cs)

/-- Reads a property name up to its closing brace. -/
def readProperty (cs : List Char) : Except ReadError (Bool × Property × List Char) :=
  let (negated, cs) := match cs with
    | '^' :: rest => (true, rest)
    | _ => (false, cs)
  let name := cs.takeWhile fun c => !("()\x7b\x7d|".contains c)
  match cs.drop name.length with
  | '\x7d' :: rest =>
    match Property.ofName? (String.ofList name) with
    | some p => .ok (negated, p, rest)
    | none => .error (.propertyName (String.ofList name))
  | [] => .error (.propertyName (String.ofList name.dropLast))
  | _ => .error (.propertyName (String.ofList name))

/-- The set of a one-letter class such as `\w`, given the one for words. -/
def letterClass? (o : Options) (word : CharSet) : Char → Option CharSet
  | 'w' => some word
  | 'W' => some (.compl word)
  | 'd' => some o.digit
  | 'D' => some (.compl o.digit)
  | 's' => some o.space
  | 'S' => some (.compl o.space)
  | 'h' => some (.property .hexDigit)
  | 'H' => some (.compl (.property .hexDigit))
  | _ => none

/-! ## Classes -/

/-- A part of the text of a class. -/
inductive ClassToken where
  | close
  | dash
  | both
  | opening
  | char (c : Char)
  | set (s : CharSet)

/-- Whether a bracket name closes before the next plain bracket. -/
def bracketCloses : List Char → Bool
  | ':' :: ']' :: _ => true
  | '\\' :: _ :: cs => bracketCloses cs
  | ']' :: _ => false
  | _ :: cs => bracketCloses cs
  | [] => false

/-- Reads a bracket such as `[:alpha:]` after its colon; `none` if the text
is no bracket after all. -/
def readBracket (o : Options) (cs : List Char) : Except ReadError (Option (CharSet × List Char)) :=
  let (negated, body) := match cs with
    | '^' :: rest => (true, rest)
    | _ => (false, cs)
  match Property.bracketNames.find? fun (name, _) => name.toList.isPrefixOf body with
  | some (name, p) =>
    match body.drop name.length with
    | ':' :: ']' :: rest =>
      let set := match p with
        | .word => o.word
        | .digit => o.digit
        | .space => o.space
        | p => Options.restrict o.asciiBracket p
      .ok (some (if negated then .compl set else set, rest))
    | _ => .error .bracketName
  | none =>
    let skipped := (body.takeWhile fun c => c != ':' && c != ']').take 21
    match body.drop skipped.length with
    | ':' :: ']' :: _ => .error .bracketName
    | _ => .ok none

/-- The next part of the text of a class. -/
def readClassToken (o : Options) : List Char → Except ReadError (ClassToken × List Char)
  | [] => .error .classUnclosed
  | ']' :: cs => .ok (.close, cs)
  | '-' :: cs => .ok (.dash, cs)
  | '&' :: '&' :: cs => .ok (.both, cs)
  | '[' :: ':' :: cs =>
    if bracketCloses cs then do
      match ← readBracket o cs with
      | some (s, rest) => return (.set s, rest)
      | none => return (.char '[', ':' :: cs)
    else .ok (.opening, ':' :: cs)
  | '[' :: cs => .ok (.opening, cs)
  | '\\' :: cs =>
    match cs with
    | [] => .error .endAtEscape
    | c :: rest =>
      match letterClass? o o.word c with
      | some s => .ok (.set s, rest)
      | none =>
        if (c = 'p' || c = 'P') && rest.head? = some '\x7b' then do
          let (negated, p, rest) ← readProperty rest.tail
          return (.set (.ofProperty p (negated != (c = 'P'))), rest)
        else if '0' ≤ c && c ≤ '7' then
          let (_, value, rest) := readDigits 8 3 cs 0 0
          if 0xff < value then .error .numberTooBig
          else do
            let (d, rest) ← readByte value rest
            return (.char d, rest)
        else if c = 'b' then .ok (.char '\x08', rest)
        else do
          let (d, rest) ← readCharEscape cs.length cs
          return (.char d, rest)
  | c :: cs => .ok (.char c, cs)

/-- What the reading of a class waits for. -/
inductive ClassState where
  | start
  /-- A character that may begin a range. -/
  | value (c : Char)
  /-- The end of a range. -/
  | range (first : Char)
  | complete

/-- Adds the character that waits to the set. -/
def ClassState.settle (acc : CharSet) : ClassState → CharSet
  | value c => .union acc (.single c)
  | _ => acc

/-- Takes one character into the set. -/
def ClassState.take (acc : CharSet) (c : Char) : ClassState → Except ReadError (CharSet × ClassState)
  | range first =>
    if c < first then .error .emptyRange else .ok (.union acc (.range first c), complete)
  | state => .ok (state.settle acc, value c)

/-- Whether the next part of the text ends a run of members. -/
def endsMembers : List Char → Bool
  | ']' :: _ => true
  | '&' :: '&' :: _ => true
  | _ => false

/-- Whether an unescaped closing bracket stands further on. -/
def hasClose : List Char → Bool
  | '\\' :: _ :: cs => hasClose cs
  | ']' :: _ => true
  | _ :: cs => hasClose cs
  | [] => false

mutual

/-- Reads a class after its opening bracket: whether it is negated, the set
of its members, and the rest of the text. -/
def readClass (o : Options) : Nat → List Char → Except ReadError (Bool × CharSet × List Char)
  | 0, _ => .error .tooDeep
  | fuel + 1, cs => do
    let (negated, cs) := match cs with
      | '^' :: rest => (true, rest)
      | _ => (false, cs)
    let (members, rest) ← match cs with
      | ']' :: rest =>
        if hasClose rest then readMembers o fuel [] .none (.value ']') rest
        else throw .emptyClass
      | _ => readMembers o fuel [] .none .start cs
    return (negated, members, rest)

/-- Reads the members up to the closing bracket. `parts` holds the sets
before each `&&`. -/
def readMembers (o : Options) :
    Nat → List CharSet → CharSet → ClassState → List Char → Except ReadError (CharSet × List Char)
  | 0, _, _, _, _ => .error .tooDeep
  | fuel + 1, parts, acc, state, cs => do
    let (token, rest) ← readClassToken o cs
    match token with
    | .close => return (parts.foldl .inter (state.settle acc), rest)
    | .both => readMembers o fuel (state.settle acc :: parts) .none .start rest
    | .opening =>
      let (negated, inner, rest) ← readClass o fuel rest
      let inner := if negated then .compl inner else inner
      readMembers o fuel parts (.union (state.settle acc) inner) .complete rest
    | .set s =>
      match state with
      | .range _ => throw .classAtRangeEnd
      | _ => readMembers o fuel parts (.union (state.settle acc) s) .complete rest
    | .char c =>
      let (acc, state) ← state.take acc c
      readMembers o fuel parts acc state rest
    | .dash =>
      match state with
      | .value c =>
        if endsMembers rest then readMembers o fuel parts (state.settle acc) (.value '-') rest
        else readMembers o fuel parts acc (.range c) rest
      | _ =>
        let (acc, state) ← state.take acc '-'
        readMembers o fuel parts acc state rest

end

end Highlighting.Regex
