import Terse.Project.Core

/-!
# The project index

What is known about all modules of a project and about the libraries it uses. A module that is
added under the name of an older one replaces its interface; which type a constructor belongs to
is remembered until another type with that constructor is added.
-/

namespace Terse

/-- The modules that each qualifier stands for, in the order of the imports. -/
abbrev AliasTable := List (String × List ModuleName)

namespace AliasTable

/-- The modules that a qualifier stands for. -/
def modulesOf (t : AliasTable) (qualifier : String) : List ModuleName :=
  (t.lookup qualifier).getD []

/-- Let a qualifier stand for one more module. -/
def add (qualifier : String) (path : ModuleName) : AliasTable → AliasTable
  | [] => [(qualifier, [path])]
  | (q, paths) :: t =>
    if q = qualifier then (q, if paths.contains path then paths else paths ++ [path]) :: t
    else (q, paths) :: add qualifier path t

/-- The table of the default imports followed by those of a module. -/
def ofImports (imports : List Import) : AliasTable :=
  (Core.defaultImports ++ imports).foldl (fun t i => add i.qualifier.render i.path.value t) []

end AliasTable

/-- The answers about other modules that the analysis of a module rests on. -/
structure Knowledge where
  /-- The module exposes the value or constructor. -/
  exposes : ModuleName → String → Bool
  /-- The constructors of a custom type, if there is one of this name. -/
  constructorsOf : TypeName → Option (List String)
  /-- The custom type that a constructor of a module belongs to. -/
  typeOf : ModuleName → String → Option TypeName

/-- All that is known about the modules of a project and its libraries. -/
structure ProjectIndex where
  interfaces : Table ModuleName Interface
  owners : Table (ModuleName × String) TypeName
  aliases : Table ModuleName AliasTable
deriving Repr, Inhabited

namespace ProjectIndex

/-- The index that knows no module. -/
def empty : ProjectIndex := ⟨[], [], []⟩

/-- Remember the type that each of some constructors belongs to. -/
def own (owners : Table (ModuleName × String) TypeName) (owner : TypeName)
    (constructors : List String) : Table (ModuleName × String) TypeName :=
  constructors.foldl (fun t c => Table.put t (owner.path, c) owner) owners

/-- Add the interface of a module. Where two of its types share a constructor, the type that was
declared last owns it. The types of a module are not meant to have an order, so either may be the
owner; nothing that is proved depends on which one it is. -/
def addInterface (index : ProjectIndex) (i : Interface) : ProjectIndex :=
  { index with
    interfaces := Table.put index.interfaces i.name i
    owners := i.types.foldr
      (fun (name, constructors) owners => own owners ⟨i.name, name⟩ constructors) index.owners }

/-- Add a module of the project. -/
def addModule (index : ProjectIndex) (m : Module) : ProjectIndex :=
  { index with
    aliases := Table.put index.aliases m.name.value (AliasTable.ofImports m.imports) }.addInterface
    (Interface.ofModule m)

/-- The index of the core library. -/
def core : ProjectIndex := Core.interfaces.foldl addInterface empty

/-- The index of the core library, of dependencies and of the modules of a project. -/
def ofProject (modules : List Module) (dependencies : List Interface) : ProjectIndex :=
  modules.foldl addModule (dependencies.foldl addInterface core)

/-- The interface of a module. -/
def interface? (index : ProjectIndex) (path : ModuleName) : Option Interface :=
  Table.find? index.interfaces path

/-- There is a module of this name. -/
def moduleExists (index : ProjectIndex) (path : ModuleName) : Bool :=
  (index.interface? path).isSome

/-- The module exposes the value or constructor. -/
def exposes (index : ProjectIndex) (path : ModuleName) (name : String) : Bool :=
  match index.interface? path with
  | some i => i.exposes name
  | none => false

/-- The constructors of a custom type, if there is one of this name. -/
def constructorsOf (index : ProjectIndex) (t : TypeName) : Option (List String) :=
  (index.interface? t.path).bind (·.constructorsOf t.name)

/-- There is a custom type of this name. -/
def typeExists (index : ProjectIndex) (t : TypeName) : Bool := (index.constructorsOf t).isSome

/-- The custom type that a constructor of a module belongs to. -/
def typeOf (index : ProjectIndex) (path : ModuleName) (constructor : String) : Option TypeName :=
  Table.find? index.owners (path, constructor)

/-- The modules that a qualifier stands for inside a module; one that is not known has the default
imports. -/
def modulesOfAlias (index : ProjectIndex) (path : ModuleName) (qualifier : String) :
    List ModuleName :=
  ((Table.find? index.aliases path).getD (AliasTable.ofImports [])).modulesOf qualifier

/-- What the analysis of a module asks of the index. -/
def knowledge (index : ProjectIndex) : Knowledge :=
  ⟨index.exposes, index.constructorsOf, index.typeOf⟩

end ProjectIndex

end Terse
