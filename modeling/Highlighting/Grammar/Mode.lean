-- Grammars as data. A grammar is a tree of modes: a mode says how a part of a
-- text begins and ends, what it is called, which keywords live in it, and
-- which other modes may begin inside it. Nothing here matches text.

namespace Highlighting

/-! ## Declarations -/

/-- The keywords of a mode, as declared. -/
inductive Keywords where
  /-- Words separated by blanks, all of one class. -/
  | words (ws : String)
  /-- Words by class, in the order of declaration. -/
  | classes (cs : List (String × String))
  deriving DecidableEq, Repr

/-- Sets the words of a class: a class that is there keeps its place. -/
def setClass (name ws : String) : List (String × String) → List (String × String)
  | [] => [(name, ws)]
  | (n, old) :: rest =>
    if n = name then (n, ws) :: rest else (n, old) :: setClass name ws rest

/-- Keywords by class. A class given twice takes the words given last. -/
def Keywords.ofClasses (cs : List (String × String)) : Keywords :=
  .classes (cs.foldl (fun acc (n, ws) => setClass n ws acc) [])

/-- The language that is embedded in a mode. -/
inductive SubLanguage where
  | name (s : String)
  /-- The best of several candidates; none listed means every language. -/
  | candidates (names : List String)
  deriving DecidableEq, Repr

mutual

/-- A rule for one kind of region of a text. -/
structure Mode where
  className : Option String := none
  /-- The pattern at which the region begins. -/
  begins : Option String := none
  /-- The pattern at which the region ends. -/
  ends : Option String := none
  /-- Words at any of which the region begins. They are its keywords too. -/
  beginKeywords : Option String := none
  keywords : Option Keywords := none
  /-- The pattern of a word that is looked up among the keywords. -/
  lexemes : Option String := none
  /-- Text that may not occur in the region. -/
  illegal : Option String := none
  contains : List ModeRef := []
  variants : List Mode := []
  /-- The mode that follows when the region ends. -/
  starts : Option ModeRef := none
  endsWithParent : Bool := false
  endsParent : Bool := false
  excludeBegin : Bool := false
  excludeEnd : Bool := false
  returnBegin : Bool := false
  returnEnd : Bool := false
  skip : Bool := false
  endSameAsBegin : Bool := false
  relevance : Option Nat := none
  subLanguage : Option SubLanguage := none

/-- A mode where it is used: by its name, or written out. -/
inductive ModeRef where
  | named (name : String)
  | inline (mode : Mode)

end

/-- The name by which a mode refers to itself. -/
def selfName : String := "self"

namespace Mode

/-- The class name, if it is not empty. -/
def scope (m : Mode) : Option String := m.className.filter (!·.isEmpty)

/-- The mode with what `overlay` sets put over it. Flags only switch on, and
variants are dropped. -/
def inherit (m overlay : Mode) : Mode where
  className := overlay.className <|> m.className
  begins := overlay.begins <|> m.begins
  ends := overlay.ends <|> m.ends
  beginKeywords := overlay.beginKeywords <|> m.beginKeywords
  keywords := overlay.keywords <|> m.keywords
  lexemes := overlay.lexemes <|> m.lexemes
  illegal := overlay.illegal <|> m.illegal
  contains := if overlay.contains.isEmpty then m.contains else overlay.contains
  variants := []
  starts := overlay.starts <|> m.starts
  endsWithParent := m.endsWithParent || overlay.endsWithParent
  endsParent := m.endsParent || overlay.endsParent
  excludeBegin := m.excludeBegin || overlay.excludeBegin
  excludeEnd := m.excludeEnd || overlay.excludeEnd
  returnBegin := m.returnBegin || overlay.returnBegin
  returnEnd := m.returnEnd || overlay.returnEnd
  skip := m.skip || overlay.skip
  endSameAsBegin := m.endSameAsBegin || overlay.endSameAsBegin
  relevance := overlay.relevance <|> m.relevance
  subLanguage := overlay.subLanguage <|> m.subLanguage

/-- The mode without its variants. -/
def withoutVariants (m : Mode) : Mode := { m with variants := [] }

/-- One mode for each variant, or the mode itself if it has none. -/
def expand (m : Mode) : List Mode :=
  if m.variants.isEmpty then [m] else m.variants.map m.inherit

end Mode

/-! ## Grammars -/

/-- Puts a definition in its place in a list that ascends by name; a name
that is there already takes the new mode. -/
def define (name : String) (mode : Mode) : List (String × Mode) → List (String × Mode)
  | [] => [(name, mode)]
  | (n, m) :: rest =>
    if name < n then (name, mode) :: (n, m) :: rest
    else if name = n then (name, mode) :: rest
    else (n, m) :: define name mode rest

/-- A language: its root mode and the modes that it names. -/
structure Grammar where
  /-- The name for people; a registry has a name of its own for it. -/
  name : Option String := none
  aliases : List String := []
  caseInsensitive : Bool := false
  /-- The named modes, in ascending order of their names. -/
  definitions : List (String × Mode) := []
  /-- The mode of the whole text. It neither begins nor ends. -/
  root : Mode := {}

/-- Names a mode in a grammar. -/
def Grammar.define (g : Grammar) (name : String) (mode : Mode) : Grammar :=
  { g with definitions := Highlighting.define name mode g.definitions }

end Highlighting
