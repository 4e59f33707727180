-- Data with types: what a scalar stands for when nobody says what is wanted.
-- A plain word may be a number, a truth value or nothing; all else is text.
import Highlighting.Yaml.Value

namespace Highlighting.Yaml

/-- A tree of typed values. -/
inductive Data where
  | null
  | bool (b : Bool)
  | int (n : Int)
  | float
  | text (s : String)
  | list (items : List Data)
  | map (entries : List (Data × Data))
  deriving Inhabited

/-! ## Words with a meaning -/

/-- The spellings of nothing. -/
def isNull (s : String) : Bool := s == "null" || s == "Null" || s == "NULL" || s == "~"

/-- The truth value of a word. -/
def bool? (s : String) : Option Bool :=
  if s == "true" || s == "True" || s == "TRUE" then some true
  else if s == "false" || s == "False" || s == "FALSE" then some false
  else none

/-- The value of a digit in a base. -/
def digit? (base : Nat) (c : Char) : Option Nat :=
  let d := if c.isDigit then some (c.toNat - '0'.toNat)
    else if 'a' ≤ c && c ≤ 'f' then some (c.toNat - 'a'.toNat + 10)
    else if 'A' ≤ c && c ≤ 'F' then some (c.toNat - 'A'.toNat + 10)
    else none
  d.filter (· < base)

/-- The number of a row of digits, which is not empty. -/
def digits? (base : Nat) (cs : List Char) : Option Nat :=
  if cs.isEmpty then none
  else cs.foldlM (fun n c => (digit? base c).map (n * base + ·)) 0

/-- Digits with a zero in front count as text. -/
def isPadded : List Char → Bool
  | '0' :: c :: cs => (c :: cs).all Char.isDigit
  | _ => false

/-- A number without its sign, in the base that its start names. -/
def magnitude? (cs : List Char) : Option Nat :=
  let based := match cs with
    | '0' :: 'x' :: cs => digits? 16 cs
    | '0' :: 'o' :: cs => digits? 8 cs
    | '0' :: 'b' :: cs => digits? 2 cs
    | _ => none
  based <|> (if isPadded cs then none else digits? 10 cs)

/-- The whole number that a word without a minus stands for. -/
def nat? (s : String) : Option Nat :=
  match s.toList with
  | '+' :: cs => magnitude? cs
  | cs => magnitude? cs

/-- The whole number that a word stands for. -/
def int? (s : String) : Option Int :=
  match s.toList with
  | '-' :: cs => (magnitude? cs).map fun n => -(n : Int)
  | _ => (nat? s).map Int.ofNat

/-- A decimal number: its digits as a whole number, and the power of ten that
they are multiplied with. -/
structure Decimal where
  digits : Nat
  exponent : Int

/-- The power of ten behind a number. -/
def exponent? (cs : List Char) : Option Int :=
  match cs with
  | [] => some 0
  | e :: cs =>
    if e == 'e' || e == 'E' then
      match cs with
      | '-' :: cs => (digits? 10 cs).map fun n => -(n : Int)
      | '+' :: cs => (digits? 10 cs).map Int.ofNat
      | cs => (digits? 10 cs).map Int.ofNat
    else none

/-- A decimal number without its sign, with digits before the point or behind
it. -/
def decimal? (cs : List Char) : Option Decimal := do
  let whole := cs.takeWhile Char.isDigit
  let rest := cs.drop whole.length
  let (places, rest) := match rest with
    | '.' :: rest =>
      let places := rest.takeWhile Char.isDigit
      (places, rest.drop places.length)
    | rest => ([], rest)
  let n ← digits? 10 (whole ++ places)
  return ⟨n, (← exponent? rest) - places.length⟩

/-- A number that a double precision number can come near to: it is below
the middle between the greatest of them and the next power of two. -/
def Decimal.isFinite (d : Decimal) : Bool :=
  let bound := Nat.pow 2 1024 - Nat.pow 2 970
  let size := (Nat.toDigits 10 d.digits).length + d.exponent
  if d.digits == 0 || size < 300 then true
  else if 320 < size then false
  else if 0 ≤ d.exponent then d.digits * Nat.pow 10 d.exponent.toNat < bound
  else d.digits < bound * Nat.pow 10 (-d.exponent).toNat

/-- A word that stands for a number with places. -/
def isFloat (s : String) : Bool :=
  let named := [".inf", ".Inf", ".INF", "+.inf", "+.Inf", "+.INF", "-.inf", "-.Inf", "-.INF",
    ".nan", ".NaN", ".NAN"]
  let cs := match s.toList with
    | '+' :: cs => cs
    | '-' :: cs => cs
    | cs => cs
  named.contains s || (decimal? cs).any Decimal.isFinite

/-! ## Scalars -/

/-- Whole numbers as data have 64 bits. -/
def Data.ofInt? (n : Int) : Option Data :=
  if -0x8000000000000000 ≤ n && n < 0x10000000000000000 then some (.int n) else none

/-- What a plain word stands for. Whole numbers of 65 to 128 bits are
refused. -/
def Data.ofWord? (s : String) : Option Data :=
  if s.isEmpty || isNull s then some .null
  else match bool? s with
    | some b => some (.bool b)
    | none =>
      match (int? s).filter (fun n => -0x80000000000000000000000000000000 ≤ n && n < 0x100000000000000000000000000000000) with
      | some n => Data.ofInt? n
      | none =>
        let unsigned := match s.toList with
          | '+' :: cs => cs
          | '-' :: cs => cs
          | cs => cs
        if !isPadded unsigned && isFloat s then some .float else some (.text s)

/-- The tags of the types that every document knows. -/
def coreTag (name : String) : String := "tag:yaml.org,2002:" ++ name

/-- What a scalar stands for. A tag of a known type has to fit, and a tag of
the document's own is refused. -/
def Scalar.data? (s : Scalar) : Option Data :=
  match s.tag with
  | none => if s.style = .plain then Data.ofWord? s.text else some (.text s.text)
  | some t =>
    if t == coreTag "bool" then (bool? s.text).map Data.bool
    else if t == coreTag "int" then (int? s.text).bind Data.ofInt?
    else if t == coreTag "float" then if isFloat s.text then some .float else none
    else if t == coreTag "null" then if isNull s.text then some .null else none
    else if t.startsWith "!" then none
    else some (.text s.text)

/-- A tag of the document's own. -/
def isLocalTag (t : Option String) : Bool := t.any (·.startsWith "!")

/-- The data that a value stands for, if it is nested no deeper than
`depth`. -/
def Value.data? (depth : Nat) (v : Value) : Option Data :=
  match v with
  | .scalar s => s.data?
  | .cyclic => none
  | .list tag items =>
    match depth with
    | 0 => none
    | depth + 1 => if isLocalTag tag then none else (items.mapM (data? depth)).map Data.list
  | .map tag entries =>
    match depth with
    | 0 => none
    | depth + 1 =>
      if isLocalTag tag then none
      else (entries.mapM fun (k, v) => return (← data? depth k, ← data? depth v)).map Data.map

end Highlighting.Yaml
