import Terse.Tree.Module

/-!
# Interfaces of modules

What a module makes available to others: the names it exposes, and its custom types with all their
constructors, exposed or not.
-/

namespace Terse

/-- A table with one entry for a key, the latest one in front. -/
abbrev Table (α β : Type) := List (α × β)

namespace Table

/-- Add an entry, in place of any older one for its key. -/
def put {α β : Type} [BEq α] (t : Table α β) (key : α) (value : β) : Table α β :=
  (key, value) :: t.filter fun entry => entry.1 != key

/-- The entry for a key. -/
def find? {α β : Type} [BEq α] (t : Table α β) (key : α) : Option β := t.lookup key

end Table

/-- What one module makes available to others. -/
structure Interface where
  name : ModuleName
  values : List String
  types : Table String (List String)
deriving Repr, Inhabited

namespace Interface

/-- The interface of a module without values and types. -/
def empty (name : ModuleName) : Interface := ⟨name, [], []⟩

/-- Expose values. -/
def withValues (i : Interface) (names : List String) : Interface :=
  { i with values := i.values ++ names }

/-- Declare a custom type and expose its constructors. -/
def withType (i : Interface) (name : String) (constructors : List String) : Interface :=
  { i with values := i.values ++ constructors, types := Table.put i.types name constructors }

/-- Declare a custom type without exposing its constructors. -/
def withHiddenType (i : Interface) (name : String) (constructors : List String) : Interface :=
  { i with types := Table.put i.types name constructors }

/-- The interface of a module of the project. -/
def ofModule (m : Module) : Interface :=
  let named := m.values.map (·.name.value) ++ m.customTypes.flatMap (·.constructorNames)
  let start := (empty m.name.value).withValues (named.filter m.exposes)
  m.customTypes.foldl (fun i t => i.withHiddenType t.name.value t.constructorNames) start

/-- The name is exposed. -/
def exposes (i : Interface) (name : String) : Bool := i.values.contains name

/-- The constructors of a custom type of the module. -/
def constructorsOf (i : Interface) (typeName : String) : Option (List String) :=
  Table.find? i.types typeName

end Interface

end Terse
