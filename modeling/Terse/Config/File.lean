import Terse.Config.Contents
import Terse.Toml.Document

/-!
# Configuration files

A configuration file is a TOML document with two tables, each with its settings. A setting is a
list of texts. Nothing else may stand in the file, and nothing may stand there twice.

This is the outer layer: how the text of a file becomes a `ConfigFile`. What is proved of
configurations starts from that value, so nothing rests on the readers of TOML.
-/

namespace Terse

namespace ConfigFile

/-! ## Settings -/

/-- A table of the file. -/
inductive TableName where
  | rules
  | caseOf
deriving DecidableEq, Repr, Inhabited

/-- A setting of the file. -/
inductive Setting where
  | select
  | exclude
  | ignoreTypes
deriving DecidableEq, Repr, Inhabited

/-- The table of a name. -/
def TableName.ofName? : String → Option TableName
  | "rules" => some .rules
  | "case_of" => some .caseOf
  | _ => none

/-- The settings of a table, in order. -/
def TableName.settings : TableName → List Setting
  | .rules => [.select, .exclude]
  | .caseOf => [.ignoreTypes]

/-- The key of a setting in its table. -/
def Setting.name : Setting → String
  | .select => "select"
  | .exclude => "exclude"
  | .ignoreTypes => "ignore_types"

/-- The setting with this key. -/
def TableName.setting? (s : TableName) (name : String) : Option Setting :=
  s.settings.find? fun k => k.name == name

/-! ## Reading -/

/-- What has been read so far. -/
structure Draft where
  /-- The table that the last header opened. -/
  here : Option TableName
  /-- The tables that stand in the file already. -/
  started : List TableName
  /-- The tables among them that may still be added to from outside. -/
  growing : List TableName
  /-- The settings with their values. -/
  values : List (Setting × List String)
deriving DecidableEq, Repr, Inhabited

namespace Draft

/-- Nothing read yet. -/
def empty : Draft := ⟨none, [], [], []⟩

/-- The texts of an array that holds nothing else. -/
def texts? : Toml.Value → Option (List String)
  | .array items => items.mapM fun
    | .string text => some text
    | _ => none
  | _ => none

/-- Start a table that is not there yet. -/
def start (d : Draft) (s : TableName) : Option Draft :=
  if d.started.contains s then none else some { d with started := s :: d.started }

/-- Give a setting its value; it must not have one yet. -/
def set (d : Draft) (k : Setting) (value : Toml.Value) : Option Draft :=
  if d.values.any (·.1 == k) then none
  else (texts? value).map fun texts => { d with values := (k, texts) :: d.values }

/-- Set what a key of a table names. -/
def setNamed (s : TableName) (d : Draft) (entry : List String × Toml.Value) : Option Draft :=
  match entry with
  | ([name], value) => (s.setting? name).bind (d.set · value)
  | _ => none

/-- Read a table that is written as a value: by keys, or as an array of its settings in order. -/
def setAll (s : TableName) (d : Draft) : Toml.Value → Option Draft
  | .table entries => entries.foldlM (setNamed s) d
  | .array items => (s.settings.zip items).foldlM (fun d (k, value) => d.set k value) d
  | _ => none

/-- Read an entry that stands before all headers. -/
def outside (d : Draft) (path : List String) (value : Toml.Value) : Option Draft :=
  match path with
  | [name] => do
    let s ← TableName.ofName? name
    setAll s (← d.start s) value
  | [name, key] => do
    let s ← TableName.ofName? name
    let d ← if d.growing.contains s then some d
      else (d.start s).map fun d => { d with growing := s :: d.growing }
    setNamed s d ([key], value)
  | _ => none

/-- Read a statement. -/
def read (d : Draft) : Toml.Statement → Option Draft
  | .header [name] => do
    let s ← TableName.ofName? name
    let d ← d.start s
    return { d with here := some s }
  | .header _ => none
  | .element _ => none
  | .entry path value =>
    match d.here with
    | some s => setNamed s d (path, value)
    | none => d.outside path value

/-- The value of a setting; an empty list if it has none. -/
def value (d : Draft) (k : Setting) : List String := (d.values.lookup k).getD []

end Draft

/-- Read a configuration file. There is no answer if it is no TOML, or if it says anything else
than a configuration file may say. -/
def parse (text : String) : Option ConfigFile := do
  let statements ← Toml.document? text
  let d ← statements.foldlM Draft.read Draft.empty
  return ⟨d.value .select, d.value .exclude, d.value .ignoreTypes⟩

/-- A file to start from. -/
def template : String :=
  "# simplify configuration file

# Rule selection.
[rules]
# Enable specific rules only (empty = all rules enabled):
# select = [\"SIM001\", \"SIM013\"]
#
# Exclude specific rules:
# exclude = [\"SIM010\"]

# Case expressions over these custom types are never collapsed.
[case_of]
# ignore_types = [\"Element.Font.Weight\"]
"

end ConfigFile

end Terse
