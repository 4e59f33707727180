-- Paths to settings, such as `output.prefix` and `detection.subset[0]`.
import Highlighting.Settings.Value

namespace Highlighting

/-- Where a setting stands. -/
inductive Path where
  | key (name : String)
  | child (parent : Path) (name : String)
  /-- An item of a list; below zero it counts from the end. -/
  | item (parent : Path) (index : Int)
  deriving DecidableEq, Repr

namespace Path

/-! ## Reading -/

/-- A character of a name. -/
def isNameChar (c : Char) : Bool := c.isAlphanum || c == ' ' || c == '_' || c == '-'

/-- The name at the start of a text, which is not empty. -/
def readName? (cs : List Char) : Option (String × List Char) :=
  let name := cs.takeWhile isNameChar
  if name.isEmpty then none else some (String.ofList name, cs.drop name.length)

/-- The index at the start of a text, with its closing bracket. -/
def readIndex? (cs : List Char) : Option (Int × List Char) :=
  let isBlank := fun (c : Char) => c == ' ' || c == '\t'
  let cs := cs.dropWhile isBlank
  let (negative, cs) := match cs with
    | '-' :: cs => (true, cs)
    | cs => (false, cs)
  let digits := cs.takeWhile Char.isDigit
  let n := digits.foldl (fun n c => n * 10 + (c.toNat - '0'.toNat)) 0
  let index : Int := if negative then -(n : Int) else n
  match (cs.drop digits.length).dropWhile isBlank with
  | ']' :: rest =>
    if digits.isEmpty || index < -0x8000000000000000 || 0x8000000000000000 ≤ index then none else some (index, rest)
  | _ => none

/-- Reads the steps behind a path. Each takes a character at least. -/
def readSteps? : Nat → Path → List Char → Option Path
  | _, p, [] => some p
  | 0, _, _ => none
  | fuel + 1, p, '.' :: cs => do
    let (name, rest) ← readName? cs
    readSteps? fuel (p.child name) rest
  | fuel + 1, p, '[' :: cs => do
    let (index, rest) ← readIndex? cs
    readSteps? fuel (p.item index) rest
  | _, _, _ => none

/-- The path that a text stands for. -/
def ofText? (s : String) : Option Path := do
  let (name, rest) ← readName? s.toList
  readSteps? rest.length (.key name) rest

/-! ## Setting -/

/-- Changes an item of a list, which grows if it is too short. An index before
the start changes nothing. -/
def modifyItem (index : Int) (f : Setting → Setting) (xs : List Setting) : List Setting :=
  let i := if 0 ≤ index then index else xs.length + index
  if i < 0 then xs
  else (xs ++ List.replicate (i.toNat + 1 - xs.length) Setting.nothing).modify i.toNat f

/-- Changes what stands at a path. What is missing on the way is made. -/
def modify (f : Setting → Setting) : Path → Setting → Setting
  | key name, root => .table (Setting.upsert name (fun old => f (old.getD .nothing)) root.entries)
  | child p name, root =>
    p.modify (fun s => .table (Setting.upsert name (fun old => f (old.getD .nothing)) s.entries)) root
  | item p index, root => p.modify (fun s => .list (modifyItem index f s.items)) root
termination_by p => p

/-- Sets what stands at a path. -/
def set (v : Setting) : Path → Setting → Setting
  | key name, root => root.put name v
  | child p name, root => p.modify (fun s => s.put name v) root
  | item p index, root => p.modify (fun s => .list (modifyItem index (fun _ => v) s.items)) root

end Path

end Highlighting
