import Terse.Project.Index

/-!
# Resolving names

How references inside a module find the module that defines them, and how a value of another
module is written there.
-/

namespace Terse

/-- What resolves the names of one module. -/
structure Lookup where
  path : ModuleName
  knowledge : Knowledge
  /-- The values and constructors that the module declares. -/
  locals : List String
  /-- The imports of the module, then the default ones. -/
  imports : List Import
  aliases : AliasTable
  /-- The names that exposing lists bring in; a later import wins. -/
  exposed : Table String ModuleName
  /-- The modules that are imported with all they expose. -/
  openModules : List ModuleName

namespace Lookup

/-- The names that an item of an exposing list brings in from a module. -/
def namesOfItem (knowledge : Knowledge) (path : ModuleName) : ExposedItem → List String
  | .value name => [name]
  | .type name true => (knowledge.constructorsOf ⟨path, name⟩).getD []
  | .type _ false | .operator _ => []

/-- The names that an import brings in one by one. -/
def namesOfImport (knowledge : Knowledge) (i : Import) : List String :=
  match i.exposing with
  | some (.only items) => items.flatMap (namesOfItem knowledge i.path.value)
  | _ => []

/-- The names that imports bring in one by one, with their modules. -/
def exposedBy (knowledge : Knowledge) (imports : List Import) : Table String ModuleName :=
  imports.foldl (fun t i =>
    (namesOfImport knowledge i).foldl (fun t name => Table.put t name i.path.value) t) []

/-- The modules that are imported with all they expose. -/
def openBy (imports : List Import) : List ModuleName :=
  ((imports.filter fun i => i.exposing == some .all).map (·.path.value)).eraseDups

/-- What resolves the names of a module. -/
def ofModule (m : Module) (knowledge : Knowledge) : Lookup where
  path := m.name.value
  knowledge := knowledge
  locals := m.values.map (·.name.value) ++ m.customTypes.flatMap (·.constructorNames)
  imports := m.imports ++ Core.defaultImports
  aliases := AliasTable.ofImports m.imports
  exposed := exposedBy knowledge (Core.defaultImports ++ m.imports)
  openModules := openBy (Core.defaultImports ++ m.imports)

/-- The module that a name without a path comes from: the module itself, then an exposing list,
then a module that is imported with all it exposes. -/
def moduleOfBare (l : Lookup) (name : String) : Option ModuleName :=
  if l.locals.contains name then some l.path
  else (Table.find? l.exposed name).or (l.openModules.find? (l.knowledge.exposes · name))

/-- The module that a name with a qualifier comes from: the first of the modules with this
qualifier that exposes it, or else the first of them. -/
def moduleOfQualified (l : Lookup) (qualifier : ModuleName) (name : String) : Option ModuleName :=
  let candidates := l.aliases.modulesOf qualifier.render
  (candidates.find? (l.knowledge.exposes · name)).or candidates.head?

/-- What a reference means, if it can be traced. -/
def resolve (l : Lookup) (q : QualifiedName) : Option ResolvedName :=
  let path := if q.isQualified then l.moduleOfQualified q.path q.name else l.moduleOfBare q.name
  path.map (⟨·, q.name⟩)

/-- The reference that means a value of a module where some variables shadow outer names: without
a path if that means the value, or else with the qualifier of its import. -/
def reference? (l : Lookup) (path : ModuleName) (name : String) (shadowed : List String) :
    Option QualifiedName :=
  if !shadowed.contains name && l.moduleOfBare name == some path then some (.bare name)
  else (l.imports.find? (·.path.value == path)).map fun i => ⟨i.qualifier, name⟩

/-- How a value of a module is written; if the module is not imported, with its full path. -/
def qualify (l : Lookup) (path : ModuleName) (name : String) (shadowed : List String) :
    QualifiedName :=
  (l.reference? path name shadowed).getD ⟨path, name⟩

/-- How a value of the module that a dotted text names is written. -/
def qualifyDotted (l : Lookup) (path : String) (name : String) (shadowed : List String) : String :=
  match l.reference? (ModuleName.ofDotted path) name shadowed with
  | some q => q.render
  | none => path ++ "." ++ name

end Lookup

end Terse
