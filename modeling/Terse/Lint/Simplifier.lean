import Terse.Config.Basic
import Terse.Grammar.Module
import Terse.Lint.Analysis

/-!
# The simplifier

A simplifier has the rules that a configuration enables and the types that it leaves alone. It
analyzes single modules, and projects of them, and applies what it finds.
-/

namespace Terse

/-- The rules that run, in the order of their codes, and the types that are left alone. -/
structure Simplifier where
  config : Config
  rules : List Rule
  ignoredTypes : List TypeName

/-- A module of a project, with the path of its file. -/
structure ProjectModule where
  path : String
  module : Module
deriving Repr, Inhabited

/-- The modules to analyze, and the interfaces of the libraries they use. -/
structure Project where
  modules : List ProjectModule
  dependencies : List Interface
deriving Repr, Inhabited

/-- All that is known about the modules of a project. -/
def Project.index (p : Project) : ProjectIndex :=
  ProjectIndex.ofProject (p.modules.map (·.module)) p.dependencies

/-- What was found in a module. -/
structure Report where
  path : String
  module : ModuleName
  findings : List Finding
deriving Repr, Inhabited

/-- Nothing was found. -/
def Report.isClean (r : Report) : Bool := r.findings.isEmpty

namespace Simplifier

/-- The simplifier of a configuration. -/
def ofConfig (c : Config) : Except ConfigError Simplifier := do
  let types ← c.validate
  return ⟨c, Rule.all.filter fun r => c.isEnabled r.code, types⟩

/-- The codes of the rules that run. -/
def ruleCodes (s : Simplifier) : List RuleCode := s.rules.map (·.code)

/-- Refuse to run when one of the types left alone is declared nowhere. -/
def checkTypes (s : Simplifier) (index : ProjectIndex) : Except ConfigError Unit :=
  let unknown := s.ignoredTypes.filter (!index.typeExists ·)
  if unknown.isEmpty then .ok () else .error (.unknownTypeNames (unknown.map TypeName.render))

/-- The findings in a module. -/
def analyzeModule (s : Simplifier) (m : Module) (knowledge : Knowledge) : List Finding :=
  findingsOf s.rules (ModuleContext.ofModule m knowledge s.ignoredTypes) m.sites

/-- The text of a module with all fixes applied. -/
def fixModule (s : Simplifier) (m : Module) (knowledge : Knowledge) : Except EditError String :=
  applyFixes m.source.text (s.analyzeModule m knowledge)

/-- The findings in all modules of a project. -/
def analyze (s : Simplifier) (p : Project) : Except ConfigError (List Report) := do
  s.checkTypes p.index
  return p.modules.map fun m =>
    ⟨m.path, m.module.name.value, s.analyzeModule m.module p.index.knowledge⟩

end Simplifier

end Terse
