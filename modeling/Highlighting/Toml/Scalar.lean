-- The scalars of a TOML text: strings, numbers, truth values, dates and times.
-- A date or time is kept as its text in a normal form.
import Highlighting.Settings.Value

namespace Highlighting.Toml

/-- Why a text is not a TOML document. -/
inductive Error where
  /-- A character that may not stand where it does. -/
  | character
  /-- An escape that stands for no character. -/
  | escape
  | string
  /-- A word that is no value. -/
  | value
  | key
  /-- A key that is there already, or a table that is not open to it. -/
  | duplicate
  /-- Something is missing between or behind values. -/
  | separator
  /-- Collections that are nested too deep. -/
  | depth
  deriving DecidableEq, Repr

/-! ## Characters -/

def isBlank (c : Char) : Bool := c == ' ' || c == '\t'

/-- A character that a comment or a string may hold. -/
def isText (c : Char) : Bool := c == '\t' || (' ' ≤ c && c != '\x7f')

/-- What follows the end of a line, if the line ends here. -/
def lineEnd? : List Char → Option (List Char)
  | '\n' :: cs => some cs
  | '\r' :: '\n' :: cs => some cs
  | _ => none

/-- A character of a key without quotes. -/
def isKeyChar (c : Char) : Bool := c.isAlphanum || c == '_' || c == '-'

/-! ## Strings -/

/-- The value of a row of digits in a base. -/
def number? (base : Nat) (cs : List Char) : Option Nat :=
  cs.foldlM (fun n c =>
    let d := if c.isDigit then some (c.toNat - '0'.toNat)
      else if 'a' ≤ c && c ≤ 'f' then some (c.toNat - 'a'.toNat + 10)
      else if 'A' ≤ c && c ≤ 'F' then some (c.toNat - 'A'.toNat + 10)
      else none
    (d.filter (· < base)).map (n * base + ·)) 0

/-- The character with the code that `width` digits give. -/
def readCode (width : Nat) (cs : List Char) : Except Error (Char × List Char) :=
  let digits := cs.take width
  match if digits.length == width then number? 16 digits else none with
  | some n => if n.isValidChar then .ok (Char.ofNat n, cs.drop width) else .error .escape
  | none => .error .escape

/-- The character of an escape, behind its backslash. -/
def readEscape : List Char → Except Error (Char × List Char)
  | 'b' :: cs => .ok ('\x08', cs)
  | 't' :: cs => .ok ('\t', cs)
  | 'n' :: cs => .ok ('\n', cs)
  | 'f' :: cs => .ok ('\x0c', cs)
  | 'r' :: cs => .ok ('\r', cs)
  | '"' :: cs => .ok ('"', cs)
  | '\\' :: cs => .ok ('\\', cs)
  | 'u' :: cs => readCode 4 cs
  | 'U' :: cs => readCode 8 cs
  | _ => .error .escape

/-- Reads a string of one line up to its closing quote. Only between double
quotes there are escapes. `acc` is what has been read, the last first. -/
def readLine (quote : Char) : Nat → List Char → List Char → Except Error (String × List Char)
  | 0, _, _ => .error .string
  | _, _, [] => .error .string
  | fuel + 1, acc, c :: cs =>
    if c == quote then .ok (String.ofList acc.reverse, cs)
    else if c == '\\' && quote == '"' then do
      let (x, cs) ← readEscape cs
      readLine quote fuel (x :: acc) cs
    else if isText c then readLine quote fuel (c :: acc) cs
    else .error .character

/-- Past blanks and line ends. -/
def skipLines : List Char → List Char
  | '\r' :: '\n' :: cs => skipLines cs
  | c :: cs => if isBlank c || c == '\n' then skipLines cs else c :: cs
  | [] => []

/-- Reads a string of several lines up to its three closing quotes. Two more
quotes may stand right before them. A backslash at the end of a line joins
the next word. -/
def readLines (quote : Char) : Nat → List Char → List Char → Except Error (String × List Char)
  | 0, _, _ => .error .string
  | _, _, [] => .error .string
  | fuel + 1, acc, c :: cs =>
    if c == quote then
      let run := ((c :: cs).takeWhile (· == quote)).length
      let more := if run < 3 then run else min (run - 3) 2
      let acc := List.replicate more quote ++ acc
      if run < 3 then readLines quote fuel acc ((c :: cs).drop run)
      else .ok (String.ofList acc.reverse, (c :: cs).drop (more + 3))
    else if c == '\\' && quote == '"' then
      match lineEnd? (cs.dropWhile isBlank) with
      | some rest => readLines quote fuel acc (skipLines rest)
      | none => do
        let (x, cs) ← readEscape cs
        readLines quote fuel (x :: acc) cs
    else match lineEnd? (c :: cs) with
      | some rest => readLines quote fuel ('\n' :: acc) rest
      | none => if isText c then readLines quote fuel (c :: acc) cs else .error .character

/-- A string behind its opening quote. A line end right behind three quotes
is left out. -/
def readString (quote : Char) (cs : List Char) : Except Error (String × List Char) :=
  match cs with
  | a :: b :: rest =>
    if a == quote && b == quote then
      let rest := (lineEnd? rest).getD rest
      readLines quote (rest.length + 1) [] rest
    else readLine quote (cs.length + 1) [] cs
  | _ => readLine quote (cs.length + 1) [] cs

/-! ## Numbers -/

/-- Digits without the underscores between them. Each underscore stands
between two digits. -/
def plainDigits? (isDigit : Char → Bool) : List Char → Option (List Char)
  | [] => none
  | [c] => if isDigit c then some [c] else none
  | c :: '_' :: d :: cs =>
    if isDigit c then (plainDigits? isDigit (d :: cs)).map (c :: ·) else none
  | c :: d :: cs => if isDigit c then (plainDigits? isDigit (d :: cs)).map (c :: ·) else none

/-- Decimal digits that do not start with a zero that means nothing. -/
def wholeDigits? (cs : List Char) : Option (List Char) :=
  (plainDigits? Char.isDigit cs).filter fun ds => ds.length == 1 || ds.head? != some '0'

/-- The sign of a number, and the rest. -/
def splitSign : List Char → Bool × List Char
  | '-' :: cs => (true, cs)
  | '+' :: cs => (false, cs)
  | cs => (false, cs)

/-- A whole number of 64 bits. -/
def int? (cs : List Char) : Option Int :=
  let based := fun (base : Nat) (cs : List Char) => do
    let ds ← plainDigits? (fun c => (number? base [c]).isSome) cs
    (number? base ds).map Int.ofNat
  let n := match cs with
    | '0' :: 'x' :: cs => based 16 cs
    | '0' :: 'o' :: cs => based 8 cs
    | '0' :: 'b' :: cs => based 2 cs
    | _ =>
      let (negative, cs) := splitSign cs
      ((wholeDigits? cs).bind (number? 10)).map fun n => if negative then -(n : Int) else n
  n.filter fun n => -0x8000000000000000 ≤ n && n < 0x8000000000000000

/-- A number with places or an exponent, or one of the named ones. A number
that is too great is refused unless it is negative. -/
def float? (cs : List Char) : Option Float :=
  let (negative, cs) := splitSign cs
  let signed := fun (x : Float) => if negative then -x else x
  if cs == ['i', 'n', 'f'] then some (signed (1.0 / 0.0))
  else if cs == ['n', 'a', 'n'] then some (0.0 / 0.0)
  else do
    let isMark := fun (c : Char) => c == 'e' || c == 'E'
    let body := cs.takeWhile (!isMark ·)
    let whole := body.takeWhile (· != '.')
    let wholeDs ← wholeDigits? whole
    let places ← match body.drop whole.length with
      | [] => some []
      | _ :: ps => plainDigits? Char.isDigit ps
    let exponent ← match cs.drop body.length with
      | [] => some 0
      | _ :: es =>
        let (neg, es) := splitSign es
        ((plainDigits? Char.isDigit es).bind (number? 10)).map fun n => if neg then -(n : Int) else n
    if places.isEmpty && body.length == cs.length then none
    let n ← number? 10 (wholeDs ++ places)
    let shift : Int := exponent - places.length
    let x := signed (Float.ofScientific n (shift < 0) (min shift.natAbs (10000 + 2 * cs.length)))
    if x.isInf && !negative then none else some x

/-! ## Dates and times -/

/-- A number of exactly so many digits in a range. -/
def field? (width low high : Nat) (cs : List Char) : Option (Nat × List Char) := do
  let ds := cs.take width
  let n ← if ds.length == width then number? 10 ds else none
  if ds.all Char.isDigit && low ≤ n && n ≤ high then some (n, cs.drop width) else none

/-- Past a character that has to stand here. -/
def expect? (c : Char) : List Char → Option (List Char)
  | d :: cs => if c == d then some cs else none
  | [] => none

/-- The number of days of a month. -/
def monthDays (year month : Nat) : Nat :=
  if month == 2 then
    if year % 4 == 0 && (year % 100 != 0 || year % 400 == 0) then 29 else 28
  else if month == 4 || month == 6 || month == 9 || month == 11 then 30
  else 31

/-- A number with zeros in front. -/
def padded (width n : Nat) : String :=
  let ds := Nat.toDigits 10 n
  String.ofList (List.replicate (width - ds.length) '0' ++ ds)

def date? (cs : List Char) : Option (String × List Char) := do
  let (year, cs) ← field? 4 0 9999 cs
  let (month, cs) ← field? 2 1 12 (← expect? '-' cs)
  let (day, cs) ← field? 2 1 (monthDays year month) (← expect? '-' cs)
  return (padded 4 year ++ "-" ++ padded 2 month ++ "-" ++ padded 2 day, cs)

/-- A time of the day, to nine places. -/
def time? (cs : List Char) : Option (String × List Char) := do
  let (hour, cs) ← field? 2 0 23 cs
  let (minute, cs) ← field? 2 0 59 (← expect? ':' cs)
  let (second, cs) ← field? 2 0 60 (← expect? ':' cs)
  let text := padded 2 hour ++ ":" ++ padded 2 minute ++ ":" ++ padded 2 second
  match cs with
  | '.' :: rest =>
    let places := rest.takeWhile Char.isDigit
    if places.isEmpty then none
    let kept := ((places.take 9).reverse.dropWhile (· == '0')).reverse
    let text := if kept.isEmpty then text else text ++ "." ++ String.ofList kept
    return (text, rest.drop places.length)
  | cs => return (text, cs)

/-- The distance from universal time. -/
def offset? (cs : List Char) : Option String := do
  match cs with
  | [] => return ""
  | ['Z'] => return "Z"
  | ['z'] => return "Z"
  | sign :: cs =>
    if sign != '+' && sign != '-' then none
    let (hours, cs) ← field? 2 0 23 cs
    let (minutes, cs) ← field? 2 0 59 (← expect? ':' cs)
    if !cs.isEmpty then none
    let sign := if sign == '-' && hours + minutes != 0 then "-" else "+"
    return sign ++ padded 2 hours ++ ":" ++ padded 2 minutes

/-- A date, a time or both. -/
def dateTime? (cs : List Char) : Option String :=
  match date? cs with
  | some (date, []) => some date
  | some (date, sep :: rest) =>
    if sep == 'T' || sep == 't' || sep == ' ' then do
      let (time, rest) ← time? rest
      return date ++ "T" ++ time ++ (← offset? rest)
    else none
  | none =>
    match time? cs with
    | some (time, []) => some time
    | _ => none

/-! ## Words -/

/-- A character of a word that is a value. -/
def isWordChar (c : Char) : Bool := isKeyChar c || c == '+' || c == '.' || c == ':'

/-- The word at the start of a text. A date goes on behind one space if a
digit follows. -/
def splitWord (cs : List Char) : List Char × List Char :=
  let word := cs.takeWhile isWordChar
  let rest := cs.drop word.length
  match date? word, rest with
  | some (_, []), ' ' :: d :: more =>
    if d.isDigit then
      let time := (d :: more).takeWhile isWordChar
      (word ++ ' ' :: time, (d :: more).drop time.length)
    else (word, rest)
  | _, _ => (word, rest)

/-- What a word stands for. -/
def word? (cs : List Char) : Option Setting :=
  if cs == ['t', 'r', 'u', 'e'] then some (.bool true)
  else if cs == ['f', 'a', 'l', 's', 'e'] then some (.bool false)
  else match int? cs with
    | some n => some (.int n)
    | none =>
      match float? cs with
      | some x => some (.float x)
      | none => (dateTime? cs).map .text

end Highlighting.Toml
