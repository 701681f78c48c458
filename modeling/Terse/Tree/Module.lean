import Terse.Text.Source
import Terse.Tree.Expr

/-!
# Modules

What a source file declares: its name and what it exposes, its imports, its values and its custom
types.
-/

namespace Terse

/-- An item of an exposing list. A type is open when its constructors are exposed with it. -/
inductive ExposedItem where
  | value (name : String)
  | type (name : String) (isOpen : Bool)
  | operator (symbol : String)
deriving DecidableEq, Repr, Inhabited

/-- An exposing list. -/
inductive Exposing where
  | all
  | only (items : List ExposedItem)
deriving DecidableEq, Repr, Inhabited

/-- An import of a module. -/
structure Import where
  path : Located ModuleName
  shortName : Option ModuleName
  exposing : Option Exposing
deriving DecidableEq, Repr, Inhabited

/-- The path that qualified references to the imported module are written with. -/
def Import.qualifier (i : Import) : ModuleName := i.shortName.getD i.path.value

/-- A variant of a custom type; of its arguments only the number is kept. -/
structure Constructor where
  name : String
  arity : Nat
deriving DecidableEq, Repr, Inhabited

/-- A custom type with its variants. -/
structure CustomType where
  name : Located String
  constructors : List (Located Constructor)
deriving DecidableEq, Repr, Inhabited

/-- The names of the variants of a custom type. -/
def CustomType.constructorNames (t : CustomType) : List String :=
  t.constructors.map (·.value.name)

/-- A value or a function with its parameters. -/
structure ValueDecl where
  name : Located String
  params : List Pattern
  body : Expr
deriving Repr, Inhabited

/-- A top-level declaration. -/
inductive Declaration where
  | value (decl : ValueDecl)
  | customType (decl : CustomType)
deriving Repr, Inhabited

/-- A module together with the text it was read from. -/
structure Module where
  name : Located ModuleName
  exposing : Exposing
  imports : List Import
  declarations : List Declaration
  source : SourceText
deriving Repr, Inhabited

namespace Module

/-- The value declarations in source order. -/
def values (m : Module) : List ValueDecl :=
  m.declarations.filterMap fun
    | .value v => some v
    | .customType _ => none

/-- The custom types in source order. -/
def customTypes (m : Module) : List CustomType :=
  m.declarations.filterMap fun
    | .customType t => some t
    | .value _ => none

/-- The module declares the value or constructor. -/
def declares (m : Module) (name : String) : Bool :=
  m.values.any (·.name.value == name) || m.customTypes.any (·.constructorNames.contains name)

/-- Importers of the module see the value or constructor. -/
def exposes (m : Module) (name : String) : Bool :=
  match m.exposing with
  | .all => m.declares name
  | .only items => items.any fun
    | .value v => v == name
    | .type t true =>
      m.customTypes.any fun c => c.name.value == t && c.constructorNames.contains name
    | .type _ false | .operator _ => false

end Module

end Terse
