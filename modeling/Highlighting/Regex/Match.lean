-- Matching. An expression is tried at a place of the text, with a
-- continuation that says whether the rest of the match succeeds from the
-- place where it stops. The ways to match are tried in a fixed order and the
-- first that the continuation accepts wins.
import Highlighting.Regex.Basic
import Highlighting.Unicode.Segment

namespace Highlighting.Regex

/-! ## Places -/

/-- A note made during a match: a group opened, or a group closed after it
took the characters from `start` to `stop`. -/
inductive Mark where
  | opened (group pos : Nat)
  | closed (group start stop : Nat)
  deriving DecidableEq, Repr

/-- Where a match attempt stands: the place in the text, the start of the
whole match, and the marks made so far, the last one first. -/
structure Place where
  pos : Nat
  start : Nat
  marks : List Mark
  deriving DecidableEq, Repr

/-- What took part as group `n`, by the last time it closed. -/
def span? (n : Nat) : List Mark → Option (Nat × Nat)
  | [] => none
  | .closed m start stop :: ms => if m = n then some (start, stop) else span? n ms
  | .opened .. :: ms => span? n ms

/-- The last start of group `n`, closed or still open. -/
def lastStart? (n : Nat) : List Mark → Option Nat
  | [] => none
  | .closed m start _ :: ms => if m = n then some start else lastStart? n ms
  | .opened m pos :: ms => if m = n then some pos else lastStart? n ms

/-- What a reference to group `n` stands for: from its last start to the
last end it had. -/
def reference? (n : Nat) (marks : List Mark) : Option (Nat × Nat) := do
  let (_, stop) ← span? n marks
  let start ← lastStart? n marks
  return (start, stop)

/-- The text that is searched, and where the search began. -/
structure Subject where
  text : Array Char
  origin : Nat

/-- The rest of a match: the final place if it succeeds from here. -/
abbrev Rest := Place → Option Place

/-- A way to match: from a place, with the rest of the match. -/
abbrev Matcher := Place → Rest → Option Place

/-! ## Parts -/

/-- Whether a character of the set `word` stands at `pos`. -/
def wordAt (s : Subject) (word : CharSet) (pos : Nat) : Bool :=
  (s.text[pos]?).any word.contains

/-- Whether the two sides of `pos` differ in being a word character. -/
def atWordEdge (s : Subject) (word : CharSet) (pos : Nat) : Bool :=
  let before := pos != 0 && wordAt s word (pos - 1)
  before != wordAt s word pos

def Anchor.holds (s : Subject) (pos : Nat) : Anchor → Bool
  | lineStart => pos == 0 || (s.text[pos - 1]? == some '\n' && pos < s.text.size)
  | lineEnd => pos == s.text.size || s.text[pos]? == some '\n'
  | textStart => pos == 0
  | textEnd => pos == s.text.size
  | lastLineEnd => pos == s.text.size || (s.text[pos]? == some '\n' && pos + 1 == s.text.size)
  | searchStart => pos == s.origin
  | wordEdge word => atWordEdge s word pos
  | notWordEdge word => !atWordEdge s word pos
  | segmentEdge => Unicode.atSegmentEdge s.text pos
  | notSegmentEdge => !Unicode.atSegmentEdge s.text pos

/-- The end of the text from `pos` whose folding is `want`. The fuel bounds
the number of characters. -/
def foldedEnd? (text : Array Char) : Nat → List Char → Nat → Option Nat
  | _, [], pos => some pos
  | 0, _ :: _, _ => none
  | fuel + 1, want, pos =>
    match text[pos]? with
    | none => none
    | some c =>
      let f := Unicode.fold c
      if f.isPrefixOf want then foldedEnd? text fuel (want.drop f.length) (pos + 1) else none

/-- The characters from `start` to `stop`. -/
def slice (text : Array Char) (start stop : Nat) : List Char :=
  (text.extract start stop).toList

/-- The end of the text from `pos` that repeats `cs`. -/
def literalEnd? (text : Array Char) : List Char → Nat → Option Nat
  | [], pos => some pos
  | c :: cs, pos => if text[pos]? = some c then literalEnd? text cs (pos + 1) else none

/-- Where a repetition of what group `n` took ends. -/
def repeatEnd? (s : Subject) (p : Place) (anyCase : Bool) (n : Nat) : Option Nat := do
  let (start, stop) ← reference? n p.marks
  let cs := slice s.text start stop
  if anyCase then
    let want := Unicode.foldAll cs
    foldedEnd? s.text want.length want p.pos
  else literalEnd? s.text cs p.pos

/-! ## Repetition -/

/-- Matches `m` exactly so many times. -/
def times (m : Matcher) : Nat → Matcher
  | 0, p, k => k p
  | n + 1, p, k => m p fun q => times m n q k

/-- Matches `m` up to so many times. A round that takes nothing is the last. -/
def upTo (m : Matcher) (greedy : Bool) : Nat → Matcher
  | 0, p, k => k p
  | n + 1, p, k =>
    if greedy then
      match m p fun q => if q.pos ≤ p.pos then k q else upTo m greedy n q k with
      | some r => some r
      | none => k p
    else
      match k p with
      | some r => some r
      | none => m p fun q => if q.pos ≤ p.pos then k q else upTo m greedy n q k

/-- How many characters of a set stand in a row from `pos`, at most so many. -/
def runLength (text : Array Char) (set : CharSet) : Nat → Nat → Nat
  | 0, _ => 0
  | n + 1, pos =>
    match text[pos]? with
    | some c => if set.contains c then runLength text set n (pos + 1) + 1 else 0
    | none => 0

/-- Tries the places up to `n` characters on, the farthest first. -/
def fromFarthest (p : Place) (k : Rest) : Nat → Option Place
  | 0 => k p
  | n + 1 =>
    match k { p with pos := p.pos + (n + 1) } with
    | some r => some r
    | none => fromFarthest p k n

/-- Tries the places up to `n` characters on, the nearest first. -/
def fromNearest (p : Place) (k : Rest) : Nat → Option Place
  | 0 => k p
  | n + 1 =>
    match k p with
    | some r => some r
    | none => fromNearest { p with pos := p.pos + 1 } k n

/-- Repeats one character of a set between `min` and `limit` times. -/
def runOf (s : Subject) (set : CharSet) (min limit : Nat) (greedy : Bool) : Matcher := fun p k =>
  let n := runLength s.text set limit p.pos
  if n < min then none
  else
    let q := { p with pos := p.pos + min }
    if greedy then fromFarthest q k (n - min) else fromNearest q k (n - min)

/-! ## Absence -/

/-- Whether `m` matches within the part of the text from `pos` to `stop`,
where `n` is the number of starts left to try. -/
def matchesWithin (m : Matcher) (p : Place) (stop : Nat) : Nat → Nat → Bool
  | 0, _ => false
  | n + 1, pos =>
    (m { p with pos := pos } fun q => if q.pos ≤ stop then some q else none).isSome
      || matchesWithin m p stop n (pos + 1)

/-- How far a text without a match of `m` reaches from `p`, at most `n`
characters; `none` if not even the empty text is without one. -/
def absentLength (m : Matcher) (p : Place) : Nat → Option Nat
  | 0 => if matchesWithin m p p.pos 1 p.pos then none else some 0
  | n + 1 =>
    match absentLength m p n with
    | none => none
    | some l =>
      if l = n && !matchesWithin m p (p.pos + (n + 1)) (n + 2) p.pos then some (n + 1) else some l

/-! ## Expressions -/

/-- The way in which an expression matches. `call` says how a called group
does. -/
def matcher (s : Subject) (call : GroupRef → Matcher) : Regex → Matcher
  | .empty, p, k => k p
  | .fail, _, _ => none
  | .set cs, p, k =>
    match s.text[p.pos]? with
    | some c => if cs.contains c then k { p with pos := p.pos + 1 } else none
    | none => none
  | .folded cs, p, k =>
    let want := Unicode.foldAll cs
    match foldedEnd? s.text want.length want p.pos with
    | some pos => k { p with pos := pos }
    | none => none
  | .seq a b, p, k => matcher s call a p fun q => matcher s call b q k
  | .alt a b, p, k =>
    match matcher s call a p k with
    | some r => some r
    | none => matcher s call b p k
  | .loop (.set cs) min max greedy, p, k =>
    runOf s cs min (max.getD (s.text.size - p.pos)) greedy p k
  | .loop a min max greedy, p, k =>
    times (matcher s call a) min p fun q =>
      let rounds := match max with
        | some m => m - min
        | none => s.text.size - q.pos + 1
      upTo (matcher s call a) greedy rounds q k
  | .group n a, p, k =>
    matcher s call a { p with marks := .opened n p.pos :: p.marks } fun q =>
      k { q with marks := .closed n p.pos q.pos :: q.marks }
  | .atomic a, p, k =>
    match matcher s call a p some with
    | some q => k q
    | none => none
  | .ahead negated a, p, k =>
    match matcher s call a p some with
    | some q => if negated then none else k { q with pos := p.pos }
    | none => if negated then k p else none
  | .behind negated width a, p, k =>
    let found :=
      if width ≤ p.pos then
        matcher s call a { p with pos := p.pos - width } fun q =>
          if q.pos = p.pos then some q else none
      else none
    match found with
    | some q => if negated then none else k q
    | none => if negated then k p else none
  | .anchor a, p, k => if a.holds s p.pos then k p else none
  | .backref groups anyCase, p, k =>
    match groups.reverse.findSome? (repeatEnd? s p anyCase) with
    | some pos => k { p with pos := pos }
    | none => none
  | .matched groups, p, k => if groups.any fun n => (span? n p.marks).isSome then k p else none
  | .call target, p, k => call target p k
  | .keep, p, k => k { p with start := p.pos }
  | .ifElse test yes no, p, k =>
    match matcher s call test p some with
    | some q => matcher s call yes q k
    | none => matcher s call no p k
  | .absent a, p, k =>
    match absentLength (matcher s call a) p (s.text.size - p.pos) with
    | some n => fromFarthest p k n
    | none => none

end Highlighting.Regex
