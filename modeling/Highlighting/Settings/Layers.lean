-- Settings in layers. Files and the environment are laid over each other in
-- order, and single settings over all of them.
import Highlighting.Settings.Path
import Highlighting.Toml.Document

namespace Highlighting

/-- Why a configuration cannot be used. -/
inductive SettingsError where
  /-- A path that cannot be read. -/
  | path (text : String)
  /-- A file that has to be there is not. -/
  | missingFile
  | file (e : Toml.Error)
  /-- A value that cannot be converted to the type that is wanted. -/
  | type
  /-- A value that is missing or has the wrong form. -/
  | form
  deriving DecidableEq, Repr

/-- One source of settings. -/
inductive Layer where
  /-- The text of a file, if the file is there. -/
  | file (text : Option String) (required : Bool)
  /-- The variables of the environment whose names start with a word and an
  underscore. -/
  | environment (lead : String)
  deriving DecidableEq, Repr

/-! ## The environment -/

/-- A text with each of the double underscores in it replaced by a dot. -/
def dotted : List Char → List Char
  | '_' :: '_' :: cs => '.' :: dotted cs
  | c :: cs => c :: dotted cs
  | [] => []

/-- The settings of the environment, by the text of their paths. Case does
not matter in the names of variables. -/
def environmentSettings (lead : String) (vars : List (String × String)) : List (String × Setting) :=
  let start := (Unicode.lower (lead ++ "_")).toList
  vars.filterMap fun (name, value) =>
    let name := (Unicode.lower name).toList
    if start.isPrefixOf name then
      some (String.ofList (dotted (name.drop start.length)), .text value)
    else none

/-! ## Layers -/

/-- The settings of a layer, by the text of their paths. -/
def Layer.settings (vars : List (String × String)) : Layer → Except SettingsError (List (String × Setting))
  | file (some text) _ => (Toml.ofText text).mapError .file
  | file none required => if required then .error .missingFile else .ok []
  | environment lead => .ok (environmentSettings lead vars)

/-- Lays settings over others. What is no path is a name. -/
def Setting.overlay (root : Setting) (settings : List (String × Setting)) : Setting :=
  settings.foldl (fun root (name, v) =>
    match Path.ofText? name with
    | some p => p.set v root
    | none => root.put name v) root

/-- What a configuration is built from. -/
structure Layers where
  layers : List Layer := []
  /-- The single settings. A path that is given twice takes the last value. -/
  overrides : List (Path × Setting) := []

namespace Layers

/-- Adds a layer over those that are there. -/
def add (l : Layers) (layer : Layer) : Layers := { l with layers := l.layers ++ [layer] }

/-- Puts a single setting over all layers. -/
def override (l : Layers) (path : String) (v : Setting) : Except SettingsError Layers :=
  match Path.ofText? path with
  | some p => .ok { l with overrides := l.overrides.filter (·.1 != p) ++ [(p, v)] }
  | none => .error (.path path)

/-- The settings that result, over those that hold by default. -/
def settings (l : Layers) (defaults : Setting) (vars : List (String × String)) :
    Except SettingsError Setting := do
  let root ← l.layers.foldlM (fun root layer => return root.overlay (← layer.settings vars)) defaults
  return l.overrides.foldl (fun root (p, v) => p.set v root) root

end Layers

end Highlighting
