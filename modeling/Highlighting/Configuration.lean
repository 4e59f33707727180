-- The configuration of highlighting: what class names start with, which
-- languages are candidates, what happens at an illegal lexeme, and whether
-- the bundled languages are there.
import Highlighting.Bundled
import Highlighting.Highlighter
import Highlighting.Settings.Layers

namespace Highlighting

/-- A configuration. -/
structure Configuration where
  lead : String := defaultLead
  /-- The candidates of a detection; none listed means every language. -/
  subset : List String := []
  policy : Illegals := .ignore
  bundled : Bool := true
  deriving DecidableEq, Repr

namespace Configuration

/-- The settings that hold if nothing else is said. -/
def defaults : Setting := .table [
  ("output", .table [("prefix", .text "hljs-")]),
  ("detection", .table [("subset", .list [])]),
  ("illegals", .table [("policy", .text "ignore")]),
  ("languages", .table [("bundled", .bool true)])]

/-! ## From settings -/

/-- The one setting of a section: by its name in a table, or as the first
item of a list. -/
def setting? (root : Setting) (group name : String) : Except SettingsError (Option Setting) :=
  match root.entries.lookup group with
  | some (.table es) => .ok (es.lookup name)
  | some (.list xs) => .ok xs.head?
  | _ => .error .form

/-- A value that has to be there. -/
def required (v : Option Setting) : Except SettingsError Setting :=
  match v with
  | some v => .ok v
  | none => .error .form

/-- A value of the type that is wanted. -/
def typed {α : Type} (v : Option α) : Except SettingsError α :=
  match v with
  | some v => .ok v
  | none => .error .type

/-- The names of a list. -/
def names (v : Option Setting) : Except SettingsError (List String) :=
  match v with
  | none => .ok []
  | some (.list xs) => xs.mapM fun x => typed x.text?
  | some _ => .error .form

/-- The policy of a name, in any case. A table of one entry names it too. -/
def policyOf (v : Setting) : Except SettingsError Illegals :=
  let named := fun (s : String) =>
    match Illegals.all.find? (·.name == Unicode.lower s) with
    | some p => Except.ok p
    | none => .error .form
  match v with
  | .text s => named s
  | .table [(s, _)] => named s
  | _ => .error .form

/-- The configuration that settings give. -/
def ofSettings (root : Setting) : Except SettingsError Configuration := do
  let lead ← typed (← required (← setting? root "output" "prefix")).text?
  let subset ← names (← setting? root "detection" "subset")
  let policy ← policyOf (← required (← setting? root "illegals" "policy"))
  let bundled ← typed (← required (← setting? root "languages" "bundled")).bool?
  return { lead, subset, policy, bundled }

/-- The configuration that layers over the defaults give. -/
def load (l : Layers) (vars : List (String × String)) : Except SettingsError Configuration := do
  ofSettings (← l.settings defaults vars)

/-! ## What it means -/

/-- How to highlight as one language. -/
def highlightOptions (c : Configuration) : HighlightOptions := { lead := c.lead, illegals := c.policy }

/-- How to detect the language. -/
def detectOptions (c : Configuration) : DetectOptions where
  lead := c.lead
  subset := if c.subset.isEmpty then none else some c.subset

/-- The languages at the start. -/
def registry (c : Configuration) : Registry := if c.bundled then Bundled.registry else {}

end Configuration

end Highlighting
