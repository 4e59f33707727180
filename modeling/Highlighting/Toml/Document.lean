-- TOML documents: keys, lists, tables and the headers that open tables. A
-- table is opened once. A header may add to tables that only other headers
-- implied, and a dotted key to those that only dotted keys made.
import Highlighting.Toml.Scalar

namespace Highlighting.Toml

/-! ## Tables under construction -/

/-- What stands under a key. -/
inductive Item where
  | value (v : Setting)
  /-- A table. It may only be implied so far, and it may come from dotted
  keys. -/
  | table (implied dotted : Bool) (entries : List (String × Item))
  /-- Tables of one name, the last one first. -/
  | tables (rows : List (List (String × Item)))

/-- The entries of a table. -/
abbrev Entries := List (String × Item)

/-- Changes the item under a key, or adds one at the end. -/
def update (key : String) (f : Option Item → Except Error Item) : Entries → Except Error Entries
  | [] => do return [(key, ← f none)]
  | (n, i) :: rest => do
    if n = key then return (n, ← f (some i)) :: rest
    return (n, i) :: (← update key f rest)

/-- Changes the entries of the table that a path leads to. Tables on the way
are made if they are missing. `f` is told whether the table comes from dotted
keys. -/
def descend (byDots : Bool) (f : Bool → Entries → Except Error Entries) :
    List String → Bool → Entries → Except Error Entries
  | [], dotted, es => f dotted es
  | key :: path, _, es => update key (fun
    | none => do return .table true byDots (← descend byDots f path byDots [])
    | some (.table implied dotted inner) => do
      if byDots && !implied then throw .duplicate
      return .table implied dotted (← descend byDots f path dotted inner)
    | some (.tables (row :: rows)) => do
      return .tables ((← descend byDots f path false row) :: rows)
    | some _ => throw .duplicate) es

/-- Puts a value under a dotted key. -/
def putValue (path : List String) (key : String) (v : Setting) (dotted : Bool) :
    Entries → Except Error Entries :=
  descend true (fun dotted es => do
    if dotted == path.isEmpty then throw .duplicate
    update key (fun
      | none => return .value v
      | some _ => throw .duplicate) es) path dotted

/-- Opens a table. -/
def openTable (path : List String) (key : String) : Entries → Except Error Entries :=
  descend false (fun _ => update key (fun
    | none => return .table false false []
    | some (.table true false es) => return .table false false es
    | some _ => throw .duplicate)) path false

/-- Opens one more table of a name. -/
def openRow (path : List String) (key : String) : Entries → Except Error Entries :=
  descend false (fun _ => update key (fun
    | none => return .tables [[]]
    | some (.tables rows) => return .tables ([] :: rows)
    | some _ => throw .duplicate)) path false

mutual

/-- The setting that an item stands for. -/
def Item.setting : Item → Setting
  | .value v => v
  | .table _ _ es => .table (settings es)
  | .tables rows => .list (rowSettings rows)

def settings : List (String × Item) → List (String × Setting)
  | [] => []
  | (k, i) :: rest => (k, i.setting) :: settings rest

/-- The rows of a name, in the order in which they were opened. -/
def rowSettings : List (List (String × Item)) → List Setting
  | [] => []
  | row :: rest => rowSettings rest ++ [.table (settings row)]

end

/-! ## Keys and values -/

def skipBlanks (cs : List Char) : List Char := cs.dropWhile isBlank

/-- Past a comment, if one starts here. -/
def skipComment : List Char → Except Error (List Char)
  | '#' :: cs =>
    let rest := cs.dropWhile isText
    if rest.isEmpty || (lineEnd? rest).isSome then .ok rest else .error .character
  | cs => .ok cs

/-- Past blanks, comments and line ends. -/
def skipSpace : Nat → List Char → Except Error (List Char)
  | 0, cs => .ok cs
  | fuel + 1, cs => do
    let cs ← skipComment (skipBlanks cs)
    match lineEnd? cs with
    | some cs => skipSpace fuel cs
    | none => return cs

/-- One part of a key: bare, or between quotes on one line. -/
def readKeyPart (cs : List Char) : Except Error (String × List Char) :=
  match cs with
  | '"' :: rest => readLine '"' (rest.length + 1) [] rest
  | '\'' :: rest => readLine '\'' (rest.length + 1) [] rest
  | _ =>
    let name := cs.takeWhile isKeyChar
    if name.isEmpty then .error .key else .ok (String.ofList name, cs.drop name.length)

/-- A key: its parts before the last, and the last one. Blanks may stand
around the dots and behind the key. -/
def readKey : Nat → List Char → Except Error (List String × String × List Char)
  | 0, _ => .error .key
  | fuel + 1, cs => do
    let (part, rest) ← readKeyPart cs
    match skipBlanks rest with
    | '.' :: rest =>
      let (path, key, rest) ← readKey fuel (skipBlanks rest)
      return (part :: path, key, rest)
    | rest => return ([], part, rest)

mutual

/-- A value. Collections may be nested `depth` deep. -/
def readValue (fuel depth : Nat) (cs : List Char) : Except Error (Setting × List Char) := do
  match fuel with
  | 0 => throw .value
  | fuel + 1 =>
    match cs with
    | '"' :: rest =>
      let (s, rest) ← readString '"' rest
      return (.text s, rest)
    | '\'' :: rest =>
      let (s, rest) ← readString '\'' rest
      return (.text s, rest)
    | '[' :: rest =>
      match depth with
      | 0 => throw .depth
      | depth + 1 =>
        let (xs, rest) ← readItems fuel depth rest
        return (.list xs, rest)
    | '\x7b' :: rest =>
      match depth with
      | 0 => throw .depth
      | depth + 1 =>
        match skipBlanks rest with
        | '\x7d' :: rest => return (.table [], rest)
        | rest =>
          let (es, rest) ← readMembers fuel depth [] rest
          return (.table (settings es), rest)
    | _ =>
      let (word, rest) := splitWord cs
      match word? word with
      | some v => return (v, rest)
      | none => throw .value

/-- The items of a list and its closing bracket. They may stand on several
lines, and a comma may follow the last one. -/
def readItems (fuel depth : Nat) (cs : List Char) : Except Error (List Setting × List Char) := do
  match fuel with
  | 0 => throw .value
  | fuel + 1 =>
    match ← skipSpace cs.length cs with
    | ']' :: rest => return ([], rest)
    | cs =>
      let (v, rest) ← readValue fuel depth cs
      match ← skipSpace rest.length rest with
      | ']' :: rest => return ([v], rest)
      | ',' :: rest =>
        let (vs, rest) ← readItems fuel depth rest
        return (v :: vs, rest)
      | _ => throw .separator

/-- The members of a table on one line and its closing brace. -/
def readMembers (fuel depth : Nat) (es : Entries) (cs : List Char) :
    Except Error (Entries × List Char) := do
  match fuel with
  | 0 => throw .value
  | fuel + 1 =>
    let (path, key, rest) ← readKey (cs.length + 1) (skipBlanks cs)
    match rest with
    | '=' :: rest =>
      let (v, rest) ← readValue fuel depth (skipBlanks rest)
      let es ← putValue path key v false es
      match skipBlanks rest with
      | '\x7d' :: rest => return (es, rest)
      | ',' :: rest => readMembers fuel depth es rest
      | _ => throw .separator
    | _ => throw .separator

end

/-- How deep collections may be nested in a value. -/
def depthLimit : Nat := 79

/-! ## Documents -/

/-- What has been read: the entries, and the path of the open table. -/
structure Reading where
  entries : Entries := []
  path : List String := []

/-- The end of a line, or of the text. -/
def readLineEnd (cs : List Char) : Except Error (List Char) := do
  let rest ← skipComment (skipBlanks cs)
  match lineEnd? rest with
  | some rest => return rest
  | none => if rest.isEmpty then return [] else throw .separator

/-- One line: a header, a key with its value, or nothing. -/
def readStatement (r : Reading) (cs : List Char) : Except Error (Reading × List Char) := do
  match skipBlanks cs with
  | '[' :: '[' :: cs =>
    let (path, key, rest) ← readKey (cs.length + 1) (skipBlanks cs)
    match rest with
    | ']' :: ']' :: rest => return (⟨← openRow path key r.entries, path ++ [key]⟩, rest)
    | _ => throw .separator
  | '[' :: cs =>
    let (path, key, rest) ← readKey (cs.length + 1) (skipBlanks cs)
    match rest with
    | ']' :: rest => return (⟨← openTable path key r.entries, path ++ [key]⟩, rest)
    | _ => throw .separator
  | cs =>
    if cs.isEmpty || cs.head? == some '#' || (lineEnd? cs).isSome then return (r, cs)
    let (path, key, rest) ← readKey (cs.length + 1) cs
    match rest with
    | '=' :: rest =>
      let (v, rest) ← readValue (cs.length + 1) depthLimit (skipBlanks rest)
      let es ← descend false (putValue path key v) r.path false r.entries
      return ({ r with entries := es }, rest)
    | _ => throw .separator

/-- Reads the lines of a document. -/
def readDocument : Nat → Reading → List Char → Except Error Reading
  | 0, r, _ => .ok r
  | fuel + 1, r, cs => do
    if cs.isEmpty then return r
    let (r, rest) ← readStatement r cs
    readDocument fuel r (← readLineEnd rest)

/-- The settings of a document, by name. -/
def ofText (s : String) : Except Error (List (String × Setting)) := do
  let cs := match s.toList with
    | '\ufeff' :: cs => cs
    | cs => cs
  let r ← readDocument (cs.length + 1) {} cs
  return settings r.entries

end Highlighting.Toml
