-- Looking behind. The text before a place is matched from a fixed number of
-- characters back, so an expression that looks behind has to take a known
-- number of characters. Its top branches may differ in length.
import Highlighting.Regex.Basic
import Highlighting.Regex.Error

namespace Highlighting.Regex

/-! ## Lengths -/

/-- The least and the greatest number of characters, `none` for no bound. -/
structure Extent where
  min : Nat
  max : Option Nat
  deriving DecidableEq, Repr

namespace Extent

def fixed (n : Nat) : Extent := ⟨n, some n⟩

def add (a b : Extent) : Extent :=
  ⟨a.min + b.min, do return (← a.max) + (← b.max)⟩

def join (a b : Extent) : Extent :=
  ⟨Nat.min a.min b.min, do return Nat.max (← a.max) (← b.max)⟩

/-- The extent of `a` repeated between `min` and `max` times. -/
def repeated (a : Extent) (min : Nat) (max : Option Nat) : Extent :=
  let most := if a.max = some 0 then some 0 else do return (← a.max) * (← max)
  ⟨a.min * min, most⟩

/-- The length, if there is only one. -/
def fixed? (e : Extent) : Option Nat := if e.max = some e.min then some e.min else none

end Extent

/-- How many characters an expression can take; `none` if that hangs on what
a group took or on a call. -/
def extent? : Regex → Option Extent
  | .empty | .fail | .ahead .. | .behind .. | .anchor _ | .matched _ | .keep => some (.fixed 0)
  | .set _ => some (.fixed 1)
  | .folded cs => some (.fixed cs.length)
  | .seq a b => do return (← extent? a).add (← extent? b)
  | .alt a b => do return (← extent? a).join (← extent? b)
  | .loop a min max _ => do return (← extent? a).repeated min max
  | .group _ a | .atomic a => extent? a
  | .ifElse test yes no => do return ((← extent? test).add (← extent? yes)).join (← extent? no)
  | .backref .. | .call _ => none
  | .absent _ => some ⟨0, none⟩

/-! ## Forms that look behind -/

/-- The branches at the top of an expression. -/
def topBranches : Regex → List Regex
  | .alt a b => topBranches a ++ topBranches b
  | r => [r]

/-- Whether an expression holds a group. -/
def hasGroup : Regex → Bool
  | .group .. => true
  | .seq a b | .alt a b => hasGroup a || hasGroup b
  | .loop a .. | .atomic a | .ahead _ a | .behind _ _ a | .absent a => hasGroup a
  | .ifElse a b c => hasGroup a || hasGroup b || hasGroup c
  | _ => false

/-- Texts up to case, character by character: no character stands for two. -/
def charByChar : Regex → Regex
  | .folded cs => ofList (cs.map fun c => .set (.anyCase (.single c)))
  | .seq a b => .seq (charByChar a) (charByChar b)
  | .alt a b => .alt (charByChar a) (charByChar b)
  | .loop a min max greedy => .loop (charByChar a) min max greedy
  | .group n a => .group n (charByChar a)
  | .atomic a => .atomic (charByChar a)
  | .ifElse a b c => .ifElse (charByChar a) (charByChar b) (charByChar c)
  | r => r

/-- Whether a repetition of the expression may be shortened at the front. -/
def isSimple : Regex → Bool
  | .set _ | .folded _ | .backref .. => true
  | _ => false

/-- A repetition at the front of what is looked for behind counts with its
least number of rounds: what stands before them does not matter. -/
def shortenFront : Regex → Regex
  | .loop a min max greedy =>
    if isSimple a then (if min = 0 then .empty else .loop a min (some min) greedy)
    else .loop a min max greedy
  | .seq (.loop a min max greedy) b =>
    if isSimple a then
      if min = 0 then shortenFront b else .seq (.loop a min (some min) greedy) b
    else .seq (.loop a min max greedy) b
  | r => r

/-- The expression that looks behind for one branch of known length. -/
def behindBranch (negated : Bool) (a : Regex) : Except ReadError Regex :=
  match (extent? a).bind Extent.fixed? with
  | some n => .ok (.behind negated n a)
  | none => .error .lookBehind

/-- The expression that looks behind for `a`. An `a` that can be empty is
always there. -/
def lookBehind (negated : Bool) (a : Regex) : Except ReadError Regex := do
  if negated && hasGroup a then throw .lookBehind
  let branches := (topBranches (charByChar a)).map shortenFront
  match extent? (ofBranches branches) with
  | none => throw .lookBehind
  | some e =>
    if e.min = 0 then return if negated then .fail else .empty
    let parts ← branches.mapM (behindBranch negated)
    return if negated then ofList parts else ofBranches parts

end Highlighting.Regex
