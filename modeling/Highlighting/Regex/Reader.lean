-- Reading the text of a pattern into an expression. Branches are separated
-- by bars, each is a row of parts, and a part may carry repetitions. A group
-- of options on its own holds for the rest of the group around it, further
-- branches included.
import Highlighting.Regex.Class
import Highlighting.Regex.LookBehind

namespace Highlighting.Regex

/-! ## The state of the reader -/

/-- What is left of the text, the number of groups so far, and the named
ones among them, the first one first. -/
structure Cursor where
  rest : List Char
  groups : Nat := 0
  names : List (String × Nat) := []

/-- The groups that carry a name. -/
def Cursor.named (cur : Cursor) (name : String) : List Nat :=
  cur.names.filterMap fun (s, n) => if s = name then some n else none

/-- A part of a branch: a plain character, or an expression. -/
inductive Part where
  | char (c : Char)
  | node (r : Regex)

/-! ## Text that means nothing -/

/-- The text after a comment group; `none` if it does not close. -/
def afterComment : List Char → Option (List Char)
  | [] => none
  | '\\' :: _ :: cs => afterComment cs
  | ')' :: cs => some cs
  | _ :: cs => afterComment cs

/-- Skips comment groups and, with the extended option, blanks and line
comments. -/
def skipIgnored (extended : Bool) : Nat → List Char → Except ReadError (List Char)
  | 0, cs => .ok cs
  | fuel + 1, cs =>
    match cs with
    | '(' :: '?' :: '#' :: rest =>
      match afterComment rest with
      | some rest => skipIgnored extended fuel rest
      | none => .error .endInGroup
    | '#' :: rest =>
      if extended then skipIgnored extended fuel ((rest.dropWhile (· != '\n')).drop 1) else .ok cs
    | c :: rest =>
      if extended && (c = ' ' || c = '\t' || c = '\n' || c = '\r' || c = '\x0c') then
        skipIgnored extended fuel rest
      else .ok cs
    | [] => .ok cs

/-- The cursor at the next part that means something. -/
def Cursor.advance (cur : Cursor) (o : Options) : Except ReadError Cursor := do
  return { cur with rest := ← skipIgnored o.extended cur.rest.length cur.rest }

/-! ## Repetition -/

inductive Manner where
  | greedy
  | lazy
  | possessive
  deriving DecidableEq, Repr

/-- How often a part is repeated. -/
structure Quantifier where
  min : Nat
  max : Option Nat
  manner : Manner
  deriving DecidableEq, Repr

/-- The greatest number of rounds that a pattern may ask for. -/
def maxRounds : Nat := 100000

/-- The manner that follows a star, a plus or a question mark. -/
def readManner : List Char → Manner × List Char
  | '?' :: cs => (.lazy, cs)
  | '+' :: cs => (.possessive, cs)
  | cs => (.greedy, cs)

/-- Reads a repetition in braces after the opening one; `none` if the text is
none, so that the brace stands for itself. Bounds the wrong way round are
swapped, and the repetition then gives nothing back. -/
def readInterval (cs : List Char) : Except ReadError (Option (Quantifier × List Char)) := do
  let (lowCount, low, rest) := readDigits 10 cs.length cs 0 0
  if maxRounds < low then throw .repeatTooBig
  match rest with
  | ',' :: rest =>
    let (highCount, high, rest) := readDigits 10 rest.length rest 0 0
    if maxRounds < high then throw .repeatTooBig
    match rest with
    | '\x7d' :: rest =>
      if highCount = 0 then
        if lowCount = 0 then return none
        let (lazy, rest) := match rest with
          | '?' :: rest => (true, rest)
          | _ => (false, rest)
        return some (⟨low, none, if lazy then .lazy else .greedy⟩, rest)
      else if high < low then return some (⟨high, some low, .possessive⟩, rest)
      else
        let (lazy, rest) := match rest with
          | '?' :: rest => (true, rest)
          | _ => (false, rest)
        return some (⟨low, some high, if lazy then .lazy else .greedy⟩, rest)
    | _ => return none
  | '\x7d' :: rest =>
    if lowCount = 0 then return none
    return some (⟨low, some low, .greedy⟩, rest)
  | _ => return none

/-- Reads one repetition, if the text starts with one. -/
def readQuantifier (cs : List Char) : Except ReadError (Option (Quantifier × List Char)) :=
  match cs with
  | '*' :: rest => let (m, rest) := readManner rest; .ok (some (⟨0, none, m⟩, rest))
  | '+' :: rest => let (m, rest) := readManner rest; .ok (some (⟨1, none, m⟩, rest))
  | '?' :: rest => let (m, rest) := readManner rest; .ok (some (⟨0, some 1, m⟩, rest))
  | '\x7b' :: rest => readInterval rest
  | _ => .ok none

/-- The repetition of an expression. Exactly once is the expression itself. -/
def Quantifier.apply (q : Quantifier) (r : Regex) : Regex :=
  if q.min = 1 && q.max = some 1 then r
  else match q.manner with
    | .greedy => .loop r q.min q.max true
    | .lazy => .loop r q.min q.max false
    | .possessive => .atomic (.loop r q.min q.max true)

/-- Reads the repetitions that follow a part and applies them in turn. -/
def readQuantifiers (o : Options) : Nat → Regex → Cursor → Except ReadError (Regex × Cursor)
  | 0, r, cur => .ok (r, cur)
  | fuel + 1, r, cur => do
    let cur ← cur.advance o
    match ← readQuantifier cur.rest with
    | some (q, rest) => readQuantifiers o fuel (q.apply r) { cur with rest := rest }
    | none => return (r, cur)

/-! ## Putting parts together -/

/-- The expression for plain characters in a row. -/
def literal (o : Options) (cs : List Char) : Regex :=
  if o.anyCase then (if cs.isEmpty then .empty else .folded cs)
  else ofList (cs.map fun c => .set (.single c))

/-- The expression for a class. Up to case, a character that stands for two
others can also be met as those two. -/
def classRegex (o : Options) (negated : Bool) (set : CharSet) : Regex :=
  if o.anyCase then
    if negated then .set (.compl (.anyCase set))
    else
      let sequences := Unicode.foldSequences.filterMap fun (n, cs) =>
        if set.contains (Char.ofNat n) then
          some (ofList (cs.map fun c => .set (.anyCase (.single (Char.ofNat c)))))
        else none
      ofBranches (.set (.anyCase set) :: sequences)
  else .set (if negated then .compl set else set)

/-- A line end of any kind. -/
def anyLineEnd : Regex :=
  .atomic (.alt (.seq (.set (.single '\r')) (.set (.single '\n')))
    (.set (.union (.range '\n' '\r')
      (.union (.single (Char.ofNat 0x85)) (.range (Char.ofNat 0x2028) (Char.ofNat 0x2029))))))

/-- The rest of a unit of the text: a character, and more up to where the next unit begins. -/
def textUnit : Regex :=
  .atomic (.seq (.set .all) (.loop (.seq (.anchor .notSegmentEdge) (.set .all)) 0 none true))

/-! ## Names of groups -/

/-- A group as a reference writes it. -/
inductive NameRef where
  | name (s : String)
  | absolute (n : Nat)
  | forward (n : Nat)
  | backward (n : Nat)

/-- The number that a run of digits stands for. -/
def numberOf (cs : List Char) : Nat := (readDigits 10 cs.length cs 0 0).2.1

/-- Reads the name of a new group. -/
def readGroupName (close : Char) (cs : List Char) : Except ReadError (String × List Char) :=
  match cs with
  | [] => .error .groupNameEmpty
  | c :: more =>
    let name := c :: more.takeWhile fun c => c != close && c != ')'
    let rest := cs.drop name.length
    if c = close then .error .groupNameEmpty
    else if c.isDigit || c = '-' || c = '+' then .error (.groupName (String.ofList name))
    else if !name.all Unicode.isWordPart then .error (.groupNameChar (String.ofList name))
    else match rest with
      | d :: rest =>
        if d = close then .ok (String.ofList name, rest) else .error (.groupName (String.ofList cs))
      | [] => .error (.groupName (String.ofList cs))

/-- Reads a reference to a group: a name, or a number with or without a sign. -/
def readNameRef (close : Char) (cs : List Char) : Except ReadError (NameRef × List Char) :=
  match cs with
  | [] => .error .groupNameEmpty
  | c :: more =>
    let name := c :: more.takeWhile fun c => c != close && c != ')'
    let rest := cs.drop name.length
    let text := String.ofList name
    if c = close then .error .groupNameEmpty
    else
      let signed := c = '-' || c = '+'
      let digits := if signed then name.tail else name
      if signed || c.isDigit then
        if digits.isEmpty then .error (.groupName text)
        else if !digits.all Char.isDigit then
          .error (if digits.all Unicode.isWordPart then .groupName text else .groupNameChar text)
        else match rest with
          | d :: rest =>
            if d = close then
              let n := numberOf digits
              if signed && n = 0 then .error (.groupName text)
              else if 0x7fffffff < n then .error .numberTooBig
              else .ok (if c = '-' then .backward n else if c = '+' then .forward n else .absolute n,
                rest)
            else .error (.groupName (String.ofList cs))
          | [] => .error (.groupName (String.ofList cs))
      else if !name.all Unicode.isWordPart then .error (.groupNameChar text)
      else match rest with
        | d :: rest =>
          if d = close then .ok (.name text, rest) else .error (.groupName (String.ofList cs))
        | [] => .error (.groupName (String.ofList cs))

/-- The groups that a reference stands for, given the groups so far. -/
def resolveRef (cur : Cursor) : NameRef → Except ReadError (List Nat)
  | .name s =>
    match cur.named s with
    | [] => .error (.undefinedName s)
    | ns => .ok ns
  | .absolute n => if n = 0 then .error .invalidBackref else .ok [n]
  | .forward n => .ok [cur.groups + n]
  | .backward n => if cur.groups < n then .error .invalidBackref else .ok [cur.groups + 1 - n]

/-! ## Escapes -/

/-- Reads a number after a backslash: a reference to a group, or a character
by its octal code. -/
def readNumberEscape (cur : Cursor) (o : Options) (cs : List Char) :
    Except ReadError (Part × Cursor) := do
  let (_, n, rest) := readDigits 10 cs.length cs 0 0
  if 0 < n && cs.head? != some '0' && n ≤ 1000 && (n ≤ cur.groups || n ≤ 9) then
    return (.node (.backref [n] o.anyCase), { cur with rest := rest })
  match cs with
  | '8' :: rest => return (.char '8', { cur with rest := rest })
  | '9' :: rest => return (.char '9', { cur with rest := rest })
  | _ =>
    let (_, value, rest) := readDigits 8 3 cs 0 0
    if 0xff < value then throw .numberTooBig
    let (c, rest) ← readByte value rest
    return (.char c, { cur with rest := rest })

/-- Reads what follows a backslash outside a class. -/
def readEscape (cur : Cursor) (o : Options) (cs : List Char) : Except ReadError (Part × Cursor) :=
  match cs with
  | [] => .error .endAtEscape
  | c :: rest =>
    let node := fun r => Except.ok (Part.node r, { cur with rest := rest })
    match letterClass? o o.wordPart c with
    | some s => node (.set s)
    | none =>
      match c with
      | 'b' => node (.anchor (.wordEdge o.wordPart))
      | 'B' => node (.anchor (.notWordEdge o.wordPart))
      | 'A' => node (.anchor .textStart)
      | 'Z' => node (.anchor .lastLineEnd)
      | 'z' => node (.anchor .textEnd)
      | 'G' => node (.anchor .searchStart)
      | 'K' => node .keep
      | 'R' => node anyLineEnd
      | 'X' => node textUnit
      | 'y' => node (.anchor .segmentEdge)
      | 'Y' => node (.anchor .notSegmentEdge)
      | 'k' =>
        match rest with
        | '<' :: inner => do
          let (r, rest) ← readNameRef '>' inner
          return (.node (.backref (← resolveRef cur r) o.anyCase), { cur with rest := rest })
        | '\'' :: inner => do
          let (r, rest) ← readNameRef '\'' inner
          return (.node (.backref (← resolveRef cur r) o.anyCase), { cur with rest := rest })
        | _ => .ok (.char 'k', { cur with rest := rest })
      | 'g' =>
        let target := fun (r : NameRef) => match r with
          | .name s => Except.ok (GroupRef.name s)
          | .absolute n => .ok (.number n)
          | .forward n => .ok (.number (cur.groups + n))
          | .backward n =>
            if cur.groups < n then .error .invalidBackref else .ok (.number (cur.groups + 1 - n))
        match rest with
        | '<' :: inner => do
          let (r, rest) ← readNameRef '>' inner
          return (.node (.call (← target r)), { cur with rest := rest })
        | '\'' :: inner => do
          let (r, rest) ← readNameRef '\'' inner
          return (.node (.call (← target r)), { cur with rest := rest })
        | _ => .ok (.char 'g', { cur with rest := rest })
      | _ =>
        if (c = 'p' || c = 'P') && rest.head? = some '\x7b' then do
          let (negated, p, rest) ← readProperty rest.tail
          return (.node (.set (.ofProperty p (negated != (c = 'P')))), { cur with rest := rest })
        else if c.isDigit then readNumberEscape cur o cs
        else do
          let (d, rest) ← readCharEscape cs.length cs
          return (.char d, { cur with rest := rest })

/-! ## Options -/

/-- The options after one letter of an option group. -/
def Options.switch (o : Options) (on : Bool) : Char → Option Options
  | 'i' => some { o with anyCase := on }
  | 'm' => some { o with dotAll := on }
  | 'x' => some { o with extended := on }
  | 'W' => some { o with asciiWord := on }
  | 'D' => some { o with asciiDigit := on }
  | 'S' => some { o with asciiSpace := on }
  | 'P' => some { o with asciiBracket := on }
  | _ => none

/-- Reads the letters of an option group up to the colon or the parenthesis
that ends them. -/
def readOptions (o : Options) (on : Bool) : List Char → Except ReadError (Options × Bool × List Char)
  | [] => .error .endInGroup
  | ':' :: cs => .ok (o, true, cs)
  | ')' :: cs => .ok (o, false, cs)
  | '-' :: cs => readOptions o false cs
  | c :: cs =>
    match o.switch on c with
    | some o => readOptions o on cs
    | none => .error .groupOption

/-! ## Branches and groups -/

/-- Puts the parts of a branch together, the last part first. Plain
characters in a row form one literal. -/
def joinParts (o : Options) : List Part → List Char → List Regex → Regex
  | [], run, done => ofList (if run.isEmpty then done else literal o run :: done)
  | .char c :: parts, run, done => joinParts o parts (c :: run) done
  | .node r :: parts, run, done =>
    joinParts o parts [] (r :: (if run.isEmpty then done else literal o run :: done))

/-- The cursor behind the parenthesis that closes a group. -/
def closeGroup (cur : Cursor) : Except ReadError Cursor :=
  match cur.rest with
  | ')' :: rest => .ok { cur with rest := rest }
  | _ => .error .groupUnclosed

mutual

/-- Reads branches up to the end of the text or of the group. -/
def readBranches : Nat → Options → Cursor → Except ReadError (List Regex × Cursor)
  | 0, _, _ => .error .tooDeep
  | fuel + 1, o, cur => do
    let (first, cur) ← readParts fuel o cur []
    match cur.rest with
    | '|' :: rest =>
      let (more, cur) ← readBranches fuel o { cur with rest := rest }
      return (first :: more, cur)
    | _ => return ([first], cur)

/-- Reads the parts of one branch. `done` holds the parts before, the last
one first. -/
def readParts : Nat → Options → Cursor → List Part → Except ReadError (Regex × Cursor)
  | 0, _, _, _ => .error .tooDeep
  | fuel + 1, o, cur, done => do
    let cur ← cur.advance o
    match cur.rest with
    | [] | '|' :: _ | ')' :: _ => return (joinParts o done [] [], cur)
    | '(' :: rest =>
      match rest with
      | '?' :: c :: _ =>
        if c = ':' || c = '=' || c = '!' || c = '>' || c = '<' || c = '\'' || c = '~' || c = '(' then
          let (r, cur) ← readGroup fuel o { cur with rest := rest }
          let (r, cur) ← readQuantifiers o cur.rest.length r cur
          readParts fuel o cur (.node r :: done)
        else
          let (inner, limited, after) ← readOptions o true rest.tail
          let (branches, cur) ← readBranches fuel inner { cur with rest := after }
          let r := ofBranches branches
          if limited then
            let cur ← closeGroup cur
            let (r, cur) ← readQuantifiers o cur.rest.length r cur
            readParts fuel o cur (.node r :: done)
          else return (joinParts o (.node r :: done) [] [], cur)
      | ['?'] => throw .endInGroup
      | [] => throw .groupUnclosed
      | _ =>
        let n := cur.groups + 1
        let (branches, cur) ← readBranches fuel o { cur with rest := rest, groups := n }
        let cur ← closeGroup cur
        let (r, cur) ← readQuantifiers o cur.rest.length (.group n (ofBranches branches)) cur
        readParts fuel o cur (.node r :: done)
    | '[' :: rest =>
      let (negated, members, rest) ← readClass o (2 * rest.length + 2) rest
      let (r, cur) ← readQuantifiers o rest.length (classRegex o negated members) { cur with rest := rest }
      readParts fuel o cur (.node r :: done)
    | c :: rest =>
      let (part, next) ← match c with
        | '.' =>
          pure (.node (.set (if o.dotAll then .all else .compl (.single '\n'))),
            { cur with rest := rest })
        | '^' => pure (.node (.anchor .lineStart), { cur with rest := rest })
        | '$' => pure (.node (.anchor .lineEnd), { cur with rest := rest })
        | '\\' => readEscape cur o rest
        | _ =>
          match ← readQuantifier cur.rest with
          | some _ => throw .repeatTarget
          | none => pure (.char c, { cur with rest := rest })
      let next ← next.advance o
      match part, ← readQuantifier next.rest with
      | .char d, none => readParts fuel o next (.char d :: done)
      | .char d, some _ =>
        let (r, next) ← readQuantifiers o next.rest.length (literal o [d]) next
        readParts fuel o next (.node r :: done)
      | .node r, _ =>
        let (r, next) ← readQuantifiers o next.rest.length r next
        readParts fuel o next (.node r :: done)

/-- Reads a group that starts with a question mark and is not a group of
options. -/
def readGroup : Nat → Options → Cursor → Except ReadError (Regex × Cursor)
  | 0, _, _ => .error .tooDeep
  | fuel + 1, o, cur =>
    let body := fun (rest : List Char) => do
      let (branches, cur) ← readBranches fuel o { cur with rest := rest }
      return (ofBranches branches, ← closeGroup cur)
    let named := fun (close : Char) (rest : List Char) => do
      let (name, rest) ← readGroupName close rest
      let n := cur.groups + 1
      let (branches, cur) ← readBranches fuel o
        { rest := rest, groups := n, names := cur.names ++ [(name, n)] }
      return (.group n (ofBranches branches), ← closeGroup cur)
    match cur.rest with
    | '?' :: ':' :: rest => body rest
    | '?' :: '=' :: rest => do let (r, cur) ← body rest; return (.ahead false r, cur)
    | '?' :: '!' :: rest => do let (r, cur) ← body rest; return (.ahead true r, cur)
    | '?' :: '>' :: rest => do let (r, cur) ← body rest; return (.atomic r, cur)
    -- With a bar the absence holds for more than the group, which is not followed here.
    | '?' :: '~' :: '|' :: _ => .error .groupOption
    | '?' :: '~' :: rest => do let (r, cur) ← body rest; return (.absent r, cur)
    | '?' :: '\'' :: rest => named '\'' rest
    | '?' :: '<' :: '=' :: rest => do
      let (r, cur) ← body rest
      return (.behind false 0 r, cur)
    | '?' :: '<' :: '!' :: rest => do
      let (r, cur) ← body rest
      return (.behind true 0 r, cur)
    | ['?', '<'] => .error .groupUnclosed
    | '?' :: '<' :: rest => named '>' rest
    | '?' :: '(' :: rest => do
      let (test, checks, cur) ← readCondition fuel o { cur with rest := rest }
      match cur.rest with
      | [] => throw .endInGroup
      | ')' :: rest =>
        if checks then return (test, { cur with rest := rest }) else throw .conditional
      | '|' :: rest =>
        let (branches, cur) ← readBranches fuel o { cur with rest := rest }
        return (.ifElse test .empty (ofBranches branches), ← closeGroup cur)
      | _ =>
        let (branches, cur) ← readBranches fuel o cur
        let cur ← closeGroup cur
        match branches with
        | yes :: no :: more => return (.ifElse test yes (ofBranches (no :: more)), cur)
        | branches => return (.ifElse test (ofBranches branches) .empty, cur)
    | _ => .error .groupOption

/-- Reads the condition of a group after its parenthesis, and whether it only
asks if a group took part. -/
def readCondition : Nat → Options → Cursor → Except ReadError (Regex × Bool × Cursor)
  | 0, _, _ => .error .tooDeep
  | fuel + 1, o, cur => do
    let enclosed := fun (close : Char) (rest : List Char) => do
      let (r, rest) ← readNameRef close rest
      let groups ← resolveRef cur r
      match rest with
      | ')' :: rest => return (.matched groups, true, { cur with rest := rest })
      | _ => throw .conditional
    let pattern := do
      let (branches, cur) ← readBranches fuel o cur
      let cur ← closeGroup cur
      return (ofBranches branches, false, cur)
    match cur.rest with
    | [] => throw .endInGroup
    | [_] => throw .endInGroup
    | '<' :: rest => enclosed '>' rest
    | '\'' :: rest => enclosed '\'' rest
    | c :: _ =>
      if c.isDigit || c = '-' || c = '+' then
        match readNameRef ')' cur.rest with
        | .ok (r, rest) => return (.matched (← resolveRef cur r), true, { cur with rest := rest })
        | .error _ => pattern
      else pattern

end

/-! ## Checks on the whole -/

/-- Gives every look-behind its width, and checks the references to groups
by number. -/
def settle (groups : Nat) : Regex → Except ReadError Regex
  | .seq a b => do return .seq (← settle groups a) (← settle groups b)
  | .alt a b => do return .alt (← settle groups a) (← settle groups b)
  | .loop a min max greedy => do return .loop (← settle groups a) min max greedy
  | .group n a => do return .group n (← settle groups a)
  | .atomic a => do return .atomic (← settle groups a)
  | .ahead negated a => do return .ahead negated (← settle groups a)
  | .behind negated _ a => do lookBehind negated (← settle groups a)
  | .ifElse a b c => do return .ifElse (← settle groups a) (← settle groups b) (← settle groups c)
  | .absent a => do return .absent (← settle groups a)
  | .backref ns anyCase =>
    if ns.any (groups < ·) then .error .invalidBackref else .ok (.backref ns anyCase)
  | .matched ns => if ns.any (groups < ·) then .error .invalidBackref else .ok (.matched ns)
  | r => .ok r

/-- Checks that a called group exists. -/
def checkCall (cur : Cursor) : GroupRef → Except ReadError Unit
  | .number n => if cur.groups < n then .error (.undefinedGroup (toString n)) else .ok ()
  | .name s =>
    match cur.named s with
    | [] => .error (.undefinedName s)
    | [_] => .ok ()
    | _ => .error (.ambiguousCall s)

/-- An expression with the number of its groups and the names among them. -/
structure Program where
  root : Regex
  groups : Nat
  names : List (String × Nat)
  deriving DecidableEq, Repr

/-- Reads the text of a pattern. -/
def read (text : String) (anyCase : Bool) : Except ReadError Program := do
  let cs := text.toList
  let (branches, cur) ← readBranches (4 * cs.length + 4) { anyCase := anyCase } { rest := cs }
  if !cur.rest.isEmpty then throw .closeUnmatched
  let root := ofBranches branches
  root.calls.forM (checkCall cur)
  return { root := ← settle cur.groups root, groups := cur.groups, names := cur.names }

end Highlighting.Regex
