-- Where a text falls into the units that a reader takes for characters: a letter with its
-- marks, a syllable, a flag, a picture made of several.
import Highlighting.Unicode.Property

namespace Highlighting.Unicode

open Category

/-! ## Kinds of characters -/

/-- Marks in front of the character that they belong to. -/
def prepended : List (Nat × Nat) := [
  (0x600, 0x605), (0x6dd, 0x6dd), (0x70f, 0x70f), (0x890, 0x891), (0x8e2, 0x8e2), (0xd4e, 0xd4e),
  (0x110bd, 0x110bd), (0x110cd, 0x110cd), (0x111c2, 0x111c3), (0x1193f, 0x1193f),
  (0x11941, 0x11941), (0x11a3a, 0x11a3a), (0x11a84, 0x11a89), (0x11d46, 0x11d46)]

/-- Characters that extend the one before without being marks that take no space. -/
def otherExtending : List (Nat × Nat) := [
  (0x9be, 0x9be), (0x9d7, 0x9d7), (0xb3e, 0xb3e), (0xb57, 0xb57), (0xbbe, 0xbbe), (0xbd7, 0xbd7),
  (0xcc2, 0xcc2), (0xcd5, 0xcd6), (0xd3e, 0xd3e), (0xd57, 0xd57), (0xdcf, 0xdcf), (0xddf, 0xddf),
  (0x1b35, 0x1b35), (0x200c, 0x200c), (0x302e, 0x302f), (0xff9e, 0xff9f), (0x1133e, 0x1133e),
  (0x11357, 0x11357), (0x114b0, 0x114b0), (0x114bd, 0x114bd), (0x115af, 0x115af),
  (0x11930, 0x11930), (0x1d165, 0x1d165), (0x1d16e, 0x1d172), (0x1f3fb, 0x1f3ff),
  (0xe0020, 0xe007f)]

/-- Spacing marks that do not join the character before. -/
def apart : List (Nat × Nat) := [
  (0x102b, 0x102c), (0x1038, 0x1038), (0x1062, 0x1064), (0x1067, 0x106d), (0x1083, 0x1083),
  (0x1087, 0x108c), (0x108f, 0x108f), (0x109a, 0x109c), (0x1a61, 0x1a61), (0x1a63, 0x1a64),
  (0xaa7b, 0xaa7b), (0xaa7d, 0xaa7d), (0x11720, 0x11721)]

/-- Code points without a character that are kept for controls. -/
def reservedControls : List (Nat × Nat) := [
  (0x2065, 0x2065), (0xfff0, 0xfff8), (0xe0000, 0xe0000), (0xe0002, 0xe001f), (0xe0080, 0xe00ff),
  (0xe01f0, 0xe0fff)]

/-- Pictures, and code points kept for them. -/
def pictures : List (Nat × Nat) := [
  (0xa9, 0xa9), (0xae, 0xae), (0x203c, 0x203c), (0x2049, 0x2049), (0x2122, 0x2122),
  (0x2139, 0x2139), (0x2194, 0x2199), (0x21a9, 0x21aa), (0x231a, 0x231b), (0x2328, 0x2328),
  (0x2388, 0x2388), (0x23cf, 0x23cf), (0x23e9, 0x23f3), (0x23f8, 0x23fa), (0x24c2, 0x24c2),
  (0x25aa, 0x25ab), (0x25b6, 0x25b6), (0x25c0, 0x25c0), (0x25fb, 0x25fe), (0x2600, 0x2605),
  (0x2607, 0x2612), (0x2614, 0x2685), (0x2690, 0x2705), (0x2708, 0x2712), (0x2714, 0x2714),
  (0x2716, 0x2716), (0x271d, 0x271d), (0x2721, 0x2721), (0x2728, 0x2728), (0x2733, 0x2734),
  (0x2744, 0x2744), (0x2747, 0x2747), (0x274c, 0x274c), (0x274e, 0x274e), (0x2753, 0x2755),
  (0x2757, 0x2757), (0x2763, 0x2767), (0x2795, 0x2797), (0x27a1, 0x27a1), (0x27b0, 0x27b0),
  (0x27bf, 0x27bf), (0x2934, 0x2935), (0x2b05, 0x2b07), (0x2b1b, 0x2b1c), (0x2b50, 0x2b50),
  (0x2b55, 0x2b55), (0x3030, 0x3030), (0x303d, 0x303d), (0x3297, 0x3297), (0x3299, 0x3299),
  (0x1f000, 0x1f0ff), (0x1f10d, 0x1f10f), (0x1f12f, 0x1f12f), (0x1f16c, 0x1f171),
  (0x1f17e, 0x1f17f), (0x1f18e, 0x1f18e), (0x1f191, 0x1f19a), (0x1f1ad, 0x1f1e5),
  (0x1f201, 0x1f20f), (0x1f21a, 0x1f21a), (0x1f22f, 0x1f22f), (0x1f232, 0x1f23a),
  (0x1f23c, 0x1f23f), (0x1f249, 0x1f3fa), (0x1f400, 0x1f53d), (0x1f546, 0x1f64f),
  (0x1f680, 0x1f6ff), (0x1f774, 0x1f77f), (0x1f7d5, 0x1f7ff), (0x1f80c, 0x1f80f),
  (0x1f848, 0x1f84f), (0x1f85a, 0x1f85f), (0x1f888, 0x1f88f), (0x1f8ae, 0x1f8ff),
  (0x1f90c, 0x1f93a), (0x1f93c, 0x1f945), (0x1f947, 0x1faff), (0x1fc00, 0x1fffd)]

def isPicture (c : Char) : Bool := inRuns pictures c

/-- What a character does to the units around it. -/
inductive SegmentKind where
  | other
  /-- Stands alone, as every line end does but for the two that form one. -/
  | control
  | prepended
  | extending
  /-- Joins two pictures. -/
  | joiner
  | spacing
  /-- Half a flag. -/
  | regional
  /-- The consonants at the start of a Hangul syllable, its vowels, and the consonants at its
  end. -/
  | leading
  | vowel
  | trailing
  /-- A Hangul syllable in one character, without consonants at its end or with them. -/
  | openSyllable
  | closedSyllable
  deriving DecidableEq, Repr

def segmentKind (c : Char) : SegmentKind :=
  if c.toNat = 0x200d then .joiner
  else if inRuns [(0x1f1e6, 0x1f1ff)] c then .regional
  else if inRuns [(0x1100, 0x115f), (0xa960, 0xa97c)] c then .leading
  else if inRuns [(0x1160, 0x11a7), (0xd7b0, 0xd7c6)] c then .vowel
  else if inRuns [(0x11a8, 0x11ff), (0xd7cb, 0xd7fb)] c then .trailing
  else if inRuns [(0xac00, 0xd7a3)] c then
    if (c.toNat - 0xac00) % 28 = 0 then .openSyllable else .closedSyllable
  else if inRuns prepended c then .prepended
  else if inRuns otherExtending c then .extending
  else match ofChar c with
    | mn | me => .extending
    | mc => if inRuns apart c then .other else .spacing
    | cc | cf | zl | zp => .control
    | _ =>
      if inRuns [(0xe33, 0xe33), (0xeb3, 0xeb3)] c then .spacing
      else if inRuns reservedControls c then .control
      else .other

/-! ## Units -/

/-- Whether two neighbours belong to one unit by their kinds alone. -/
def SegmentKind.joins : SegmentKind → SegmentKind → Bool
  | .control, _ | _, .control => false
  | _, .extending | _, .joiner | _, .spacing => true
  | .leading, b => [leading, vowel, openSyllable, closedSyllable].contains b
  | .openSyllable, b | .vowel, b => [vowel, trailing].contains b
  | .closedSyllable, b | .trailing, b => b == trailing
  | .prepended, _ => true
  | _, _ => false

/-- Whether a character goes on with the unit of those before it, the nearest first. Pictures
are joined by a joiner behind them and their marks, and flags go in pairs. -/
def goesOn (before : List Char) (c : Char) : Bool :=
  match before with
  | [] => false
  | b :: more =>
    (b == '\r' && c == '\n') || (segmentKind b).joins (segmentKind c) ||
      (segmentKind b == .joiner && isPicture c &&
        (more.dropWhile (segmentKind · == .extending)).head?.any isPicture) ||
      (segmentKind b == .regional && segmentKind c == .regional &&
        (more.takeWhile (segmentKind · == .regional)).length % 2 == 0)

/-- Whether a unit ends or begins at a place of a text. -/
def atSegmentEdge (text : Array Char) (pos : Nat) : Bool :=
  match text[pos]? with
  | some c => !goesOn (text.extract 0 pos).toList.reverse c
  | none => true

end Highlighting.Unicode
