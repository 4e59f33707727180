-- The decimal text of a double precision number: the fewest digits that read
-- back as the same number, in positional notation.

namespace Highlighting.Decimal

/-- A positive number: `significand * 2 ^ exponent`. -/
structure Binary where
  significand : Nat
  exponent : Int
  /-- The next number below is only half as far away as the next one above. -/
  nearBelow : Bool

/-- The parts of a number, its sign left out. -/
def Binary.ofFloat (x : Float) : Binary :=
  let bits := x.toBits.toNat
  let fraction := bits % 0x10000000000000
  let biased : Nat := bits / 0x10000000000000 % 2048
  if biased = 0 then ⟨fraction, -1074, false⟩
  else ⟨0x10000000000000 + fraction, (biased : Int) - 1075, fraction = 0 && 1 < biased⟩

/-- A number and the bounds of what reads back as it, as fractions of one
denominator. -/
structure Bounds where
  low : Nat
  value : Nat
  high : Nat
  denominator : Nat

/-- The bounds of a number in units of `10 ^ k`. -/
def Binary.bounds (b : Binary) (k : Int) : Bounds :=
  let up := Nat.pow 2 (b.exponent - 2).toNat * Nat.pow 10 (-k).toNat
  let down := Nat.pow 2 (2 - b.exponent).toNat * Nat.pow 10 k.toNat
  let m := 4 * b.significand
  ⟨(m - if b.nearBelow then 1 else 2) * up, m * up, (m + 2) * up, down⟩

/-- The number of units of `10 ^ k` that reads back as the number, if there is
one: of two such the nearer one. -/
def Binary.units? (b : Binary) (k : Int) : Option Nat :=
  let w := b.bounds k
  let below := w.value / w.denominator
  let reads := fun (n : Nat) =>
    let x := n * w.denominator
    if b.significand % 2 = 0 then w.low ≤ x && x ≤ w.high else w.low < x && x < w.high
  let nearer := w.value - below * w.denominator ≤ (below + 1) * w.denominator - w.value
  if reads below && (nearer || !reads (below + 1)) then some below
  else if reads (below + 1) then some (below + 1)
  else none

/-- The first power of ten at or below `k` that gives digits, and those. -/
def Binary.search (b : Binary) (k : Int) : Nat → Nat × Int
  | 0 => (0, k)
  | fuel + 1 =>
    match b.units? k with
    | some n => (n, k)
    | none => b.search (k - 1) fuel

/-- The fewest digits for a number, and their power of ten. -/
def Binary.shortest (b : Binary) : Nat × Int :=
  let w := b.bounds 0
  let digits := fun (n : Nat) => (Nat.toDigits 10 n).length
  b.search ((digits w.value : Int) - digits w.denominator + 1) 40

/-- `n * 10 ^ k` in positional notation. -/
def positional (n : Nat) (k : Int) : String :=
  let ds := Nat.toDigits 10 n
  let zeros := fun (n : Nat) => List.replicate n '0'
  if 0 ≤ k then String.ofList (ds ++ zeros k.toNat)
  else
    let places := (-k).toNat
    let ds := zeros (places + 1 - ds.length) ++ ds
    String.ofList (ds.take (ds.length - places) ++ '.' :: ds.drop (ds.length - places))

/-- The text of a number. -/
def ofFloat (x : Float) : String :=
  if x.isNaN then "NaN"
  else
    let sign := if x.toBits.toNat < 0x8000000000000000 then "" else "-"
    let body :=
      if x.isInf then "inf"
      else if x == 0 then "0"
      else
        let (n, k) := (Binary.ofFloat x).shortest
        positional n k
    sign ++ body

end Highlighting.Decimal
