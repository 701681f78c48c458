import Terse.Config.Basic

/-!
# What configuration files say

A configuration file lists rules to run, rules not to run, and types whose cases are left alone. It
describes a configuration, unless something is wrong with one of these texts.
-/

namespace Terse

/-- What a configuration file says, as it is written there. -/
structure ConfigFile where
  /-- The codes to run; all of them if there are none. -/
  select : List String
  /-- The codes not to run. -/
  exclude : List String
  /-- The types whose cases are left alone. -/
  ignoreTypes : List String
deriving DecidableEq, Repr, Inhabited

namespace ConfigFile

/-- The configuration that a file describes. Texts that are no codes are passed over. -/
def described (f : ConfigFile) : Config :=
  ⟨if f.select.isEmpty then none else some (f.select.filterMap RuleCode.ofText?),
   f.exclude.filterMap RuleCode.ofText?, f.ignoreTypes⟩

/-- Refuse a file with a text that is no code, or with a name that is no name of a type. Selected
codes are read before excluded ones. -/
def check (f : ConfigFile) : Except ConfigError Unit := do
  let _ ← Config.codes f.select
  let _ ← Config.codes f.exclude
  let _ ← f.described.validate
  return ()

/-- The configuration that a file describes, if nothing is wrong with the file. -/
def toConfig (f : ConfigFile) : Except ConfigError Config := do
  f.check
  return f.described

/-- The first thing that is wrong with a file, if anything is. -/
def problem? (f : ConfigFile) : Option ConfigError :=
  match f.check with
  | .ok _ => none
  | .error e => some e

end ConfigFile

end Terse
