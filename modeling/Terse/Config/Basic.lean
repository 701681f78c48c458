import Terse.Name
import Terse.Rule.Code

/-!
# Configuration

Which rules run, and the custom types whose cases are left alone.
-/

namespace Terse

/-- Why a configuration cannot be used. -/
inductive ConfigError where
  /-- A text that is no code of a rule. -/
  | unknownRuleCode (text : String)
  /-- Names that are no names of types with their modules. -/
  | invalidTypeNames (names : List String)
  /-- Types that no module declares. -/
  | unknownTypeNames (names : List String)
deriving DecidableEq, Repr, Inhabited

namespace ConfigError

/-- Names between backquotes, with commas between them. -/
def quoteAll (names : List String) : String := ", ".intercalate (names.map fun n => "`" ++ n ++ "`")

/-- The text of an error. -/
def message : ConfigError → String
  | unknownRuleCode text => "unknown rule code '" ++ text ++ "'"
  | invalidTypeNames names => "Invalid type names: " ++ quoteAll names
  | unknownTypeNames names => "Could not find type names: " ++ quoteAll names

/-- The paragraphs that explain an error. -/
def details : ConfigError → List String
  | unknownRuleCode _ => []
  | invalidTypeNames _ =>
    ["I expect valid type names to be passed to `ignore_case_of_for_types` that include the module name, like `Module.Name.TypeName`."]
  | unknownTypeNames _ =>
    ["I expected to find these custom types in the code or dependencies, but I could not find them.",
     "Please check whether these types have been moved or renamed, and if so, update your configuration.",
     "If they have been removed, remove them from the configuration of this rule.",
     "Note that I may have provided fixes for things you didn't wish to be fixed, so you might want to double check the changes I have applied."]

end ConfigError

/-- Which rules run, and which types are left alone. -/
structure Config where
  /-- The rules to run; all of them if there is no selection. -/
  select : Option (List RuleCode)
  /-- The rules not to run, selected or not. -/
  ignore : List RuleCode
  /-- The types whose cases are left alone, as written by the user. -/
  ignoredTypes : List String
deriving DecidableEq, Repr, Inhabited

namespace Config

/-- Run all rules on all types. -/
def default : Config := ⟨none, [], []⟩

/-- The rules that texts stand for, or the first text that stands for none. -/
def codes : List String → Except ConfigError (List RuleCode)
  | [] => .ok []
  | text :: texts =>
    match RuleCode.ofText? text with
    | some code => (codes texts).map (code :: ·)
    | none => .error (.unknownRuleCode text)

/-- The configuration with these texts. Selected codes are read before ignored ones. -/
def ofTexts (select : Option (List String)) (ignore ignoredTypes : List String) :
    Except ConfigError Config := do
  let selected ← match select with
    | some texts => (codes texts).map some
    | none => pure none
  let ignored ← codes ignore
  return ⟨selected, ignored, ignoredTypes⟩

/-- There is a selection, but no rule in it. -/
def hasEmptySelection (c : Config) : Bool := c.select == some []

/-- The rule runs. -/
def isEnabled (c : Config) (rule : RuleCode) : Bool :=
  !c.ignore.contains rule &&
    match c.select with
    | some selected => selected.contains rule
    | none => true

/-- The rules of a list, each once, in the order of the codes. -/
def inOrder (codes : List RuleCode) : List RuleCode := RuleCode.all.filter codes.contains

/-- A character that a segment of a type name may go on with. -/
def isSegmentChar (c : Char) : Bool := c.isAlphanum || c == '_'

/-- A segment of a type name: an ASCII capital letter, then ASCII letters, digits and
underscores. -/
def isSegment : List Char → Bool
  | c :: cs => c.isUpper && cs.all isSegmentChar
  | [] => false

/-- The text names a type with its module: two segments or more, with points between them. -/
def isTypeName (text : String) : Bool :=
  let segments := segmentsOf text.toList
  2 ≤ segments.length && segments.all isSegment

/-- The ignored types, each once; or all names among them that are none. -/
def validate (c : Config) : Except ConfigError (List TypeName) :=
  let names := c.ignoredTypes.eraseDups
  let invalid := names.filter (!isTypeName ·)
  if invalid.isEmpty then .ok (names.filterMap TypeName.ofDotted?)
  else .error (.invalidTypeNames invalid)

end Config

end Terse
