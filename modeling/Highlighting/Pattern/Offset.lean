-- Offsets in bytes. Inside the library a place in a text is a number of
-- characters. Callers may count the bytes of the text in UTF-8 instead.
import Highlighting.Pattern.Basic

namespace Highlighting

/-- The number of bytes that characters take. -/
def byteLength (cs : List Char) : Nat := cs.foldr (fun c n => c.utf8Size + n) 0

/-- The offset in bytes of the place after `n` characters. -/
def byteOffset (text : Array Char) (n : Nat) : Nat := byteLength (text.toList.take n)

/-- The number of characters that end at a byte offset: `none` beyond the
text, and the next place with `false` if the offset lies within a character. -/
def charOffset (cs : List Char) (bytes : Nat) : Option (Nat × Bool) :=
  match cs with
  | [] => if bytes = 0 then some (0, true) else none
  | c :: cs =>
    if bytes = 0 then some (0, true)
    else if bytes < c.utf8Size then some (1, false)
    else (charOffset cs (bytes - c.utf8Size)).map fun (n, exact) => (n + 1, exact)

namespace Pattern

/-- The leftmost match from a byte offset on, with all its groups in bytes. -/
def searchBytes (p : Pattern) (text : Array Char) (start : Nat) :
    Option (List (Option (Nat × Nat))) := do
  let (n, _) ← charOffset text.toList start
  let found ← p.search text n
  return (some (found.start, found.stop) :: found.groups).map fun span? =>
    span?.map fun (start, stop) => (byteOffset text start, byteOffset text stop)

/-- The extent in bytes of the leftmost match from a byte offset on. -/
def findBytes (p : Pattern) (text : Array Char) (start : Nat) : Option (Nat × Nat) :=
  ((p.searchBytes text start).bind List.head?).join

/-- Whether the pattern matches from a byte offset. -/
def matchesAtByte (p : Pattern) (text : Array Char) (offset : Nat) : Bool :=
  match charOffset text.toList offset with
  | some (n, true) => p.matchesAt text n
  | _ => false

end Pattern

end Highlighting
