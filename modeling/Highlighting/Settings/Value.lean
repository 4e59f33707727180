-- Settings as they come from a file, the environment or a caller: values
-- without a fixed type, in tables by name. A setting is converted to the type
-- that is wanted when it is used.
import Highlighting.Decimal
import Highlighting.Unicode.Lowercase

namespace Highlighting

/-- A setting. -/
inductive Setting where
  | nothing
  | bool (b : Bool)
  | int (n : Int)
  | float (x : Float)
  | text (s : String)
  | list (items : List Setting)
  | table (entries : List (String × Setting))
  deriving Inhabited

namespace Setting

/-! ## Conversions -/

/-- A setting as text: numbers and truth values are written out. -/
def text? : Setting → Option String
  | text s => some s
  | bool b => some (if b then "true" else "false")
  | int n => some (match n with
    | .ofNat n => String.ofList (Nat.toDigits 10 n)
    | .negSucc n => "-" ++ String.ofList (Nat.toDigits 10 (n + 1)))
  | float x => some (Decimal.ofFloat x)
  | _ => none

/-- The truth value of a word, in any case. -/
def boolOfText? (s : String) : Option Bool :=
  match Unicode.lower s with
  | "1" | "true" | "on" | "yes" => some true
  | "0" | "false" | "off" | "no" => some false
  | _ => none

/-- A setting as a truth value: every number but zero is true. -/
def bool? : Setting → Option Bool
  | bool b => some b
  | int n => some (n != 0)
  | float x => some (x != 0)
  | text s => boolOfText? s
  | _ => none

/-! ## Tables -/

/-- The entries of a table; anything else has none. -/
def entries : Setting → List (String × Setting)
  | table es => es
  | _ => []

/-- The items of a list; anything else has none. -/
def items : Setting → List Setting
  | list xs => xs
  | _ => []

/-- Changes the entry of a name, or adds one at the end. -/
def upsert (name : String) (f : Option Setting → Setting) :
    List (String × Setting) → List (String × Setting)
  | [] => [(name, f none)]
  | (n, v) :: rest => if n = name then (n, f (some v)) :: rest else (n, v) :: upsert name f rest

mutual

/-- Puts a setting under a name, of which case does not matter. A table is
put into the table that is there, entry by entry; anything else takes the
place of what is there. -/
def put (root : Setting) (name : String) : Setting → Setting
  | table incoming =>
    table (upsert (Unicode.lower name) (fun old => (old.getD (table [])).putAll incoming) root.entries)
  | v => table (upsert (Unicode.lower name) (fun _ => v) root.entries)

/-- Puts several settings, one after the other. -/
def putAll (root : Setting) : List (String × Setting) → Setting
  | [] => root
  | (name, v) :: rest => (root.put name v).putAll rest

end

end Setting

end Highlighting
