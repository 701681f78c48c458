import Terse.Text.Letter

/-!
# Names

A module is named by a path of segments. A reference names a value, with the path it was written
with; after resolution it names the defining module. Types are named like resolved values.
-/

namespace Terse

/-- Join segments by dots. -/
def dotted (segments : List String) : String := ".".intercalate segments

/-- The segments of a text between its dots, empty ones included. -/
def segmentsOf : List Char → List (List Char)
  | [] => [[]]
  | c :: cs =>
    match segmentsOf cs with
    | [] => [[c]]
    | s :: ss => if c = '.' then [] :: s :: ss else (c :: s) :: ss

/-- The path of a module. -/
structure ModuleName where
  segments : List String
deriving DecidableEq, Repr, Inhabited

namespace ModuleName

/-- The path of what stands in no module. -/
def empty : ModuleName := ⟨[]⟩

/-- The path that a dotted text spells; empty segments are dropped. -/
def ofDotted (text : String) : ModuleName :=
  ⟨((segmentsOf text.toList).filter (!·.isEmpty)).map String.ofList⟩

/-- No segment at all. -/
def isEmpty (m : ModuleName) : Bool := m.segments.isEmpty

/-- The dotted text is exactly this path: nothing is dropped from it. -/
def isSpelled (m : ModuleName) (text : String) : Bool :=
  m.segments == (segmentsOf text.toList).map String.ofList

/-- The dotted text of the path. -/
def render (m : ModuleName) : String := dotted m.segments

end ModuleName

/-- A reference as written: `List.map` has the path `List`, `map` has the empty path. -/
structure QualifiedName where
  path : ModuleName
  name : String
deriving DecidableEq, Repr, Inhabited

namespace QualifiedName

/-- A reference without a path. -/
def bare (name : String) : QualifiedName := ⟨ModuleName.empty, name⟩

/-- The reference was written with a path. -/
def isQualified (q : QualifiedName) : Bool := !q.path.isEmpty

/-- The name of a constructor: it starts with a capital letter. -/
def isConstructor (q : QualifiedName) : Bool :=
  match q.name.toList with
  | c :: _ => Letter.isUppercase c
  | [] => false

/-- The text of a reference. -/
def render (q : QualifiedName) : String :=
  if q.path.isEmpty then q.name else q.path.render ++ "." ++ q.name

end QualifiedName

/-- Cut a text at its last dot: what stands before it, and what stands after it. -/
def splitLastDot (text : String) : Option (String × String) :=
  let back := text.toList.reverse
  match back.dropWhile (· ≠ '.') with
  | [] => none
  | _ :: path =>
    some (String.ofList path.reverse, String.ofList (back.takeWhile (· ≠ '.')).reverse)

/-- The reference that a text spells: its last dot divides the path from the name. -/
def QualifiedName.ofText (text : String) : QualifiedName :=
  match splitLastDot text with
  | some (path, name) => ⟨ModuleName.ofDotted path, name⟩
  | none => bare text

/-- A value together with the module that defines it. -/
structure ResolvedName where
  path : ModuleName
  name : String
deriving DecidableEq, Repr, Inhabited

/-- The text of a resolved name. -/
def ResolvedName.render (r : ResolvedName) : String := r.path.render ++ "." ++ r.name

/-- A custom type together with the module that declares it. -/
structure TypeName where
  path : ModuleName
  name : String
deriving DecidableEq, Repr, Inhabited

namespace TypeName

/-- The type that a text spells: its last dot divides the module from the type. -/
def ofDotted? (text : String) : Option TypeName :=
  (splitLastDot text).map fun (path, name) => ⟨ModuleName.ofDotted path, name⟩

/-- The text of a type name. -/
def render (t : TypeName) : String := t.path.render ++ "." ++ t.name

end TypeName

end Terse
