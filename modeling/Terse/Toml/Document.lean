import Terse.Toml.Scalar
import Terse.Toml.Text

/-!
# Documents

A TOML document as the list of its statements. Which statements may stand together is decided
where a document is interpreted; only inside the braces of a single table is that decided here. Like
all readers of TOML, these serve the outer layer only.
-/

namespace Terse.Toml

/-- A value. A table keeps its keys as paths. -/
inductive Value where
  | string (text : String)
  | scalar (text : String)
  | array (items : List Value)
  | table (entries : List (List String × Value))
deriving Repr, Inhabited

/-- A statement of a document. -/
inductive Statement where
  /-- The header of a table. -/
  | header (path : List String)
  /-- The header of a further table of an array. -/
  | element (path : List String)
  | entry (path : List String) (value : Value)
deriving Repr, Inhabited

/-- How many arrays and tables may be open at once, and how many parts a path may have. -/
def greatestDepth : Nat := 79

/-- Read a path. -/
def path? (cs : List Char) : Option (List String × List Char) :=
  (key? (cs.length + 1) cs).filter fun (path, _) => path.length ≤ greatestDepth

/-- No path of a list leads to another one of them or through it. -/
def independent : List (List String) → Bool
  | [] => true
  | p :: ps => ps.all (fun q => !p.isPrefixOf q && !q.isPrefixOf p) && independent ps

mutual

/-- Read a value inside `depth` open arrays and tables. -/
def value? : Nat → Nat → List Char → Option (Value × List Char)
  | 0, _, _ => none
  | fuel + 1, depth, cs =>
    match cs with
    | '[' :: rest =>
      if depth < greatestDepth then do
        let (items, rest) ← items? fuel (depth + 1) rest
        return (.array items, rest)
      else none
    | '{' :: rest =>
      if depth < greatestDepth then do
        let (entries, rest) ← entries? fuel (depth + 1) rest
        if independent (entries.map (·.1)) then return (.table entries, rest) else none
      else none
    | _ =>
      match text? cs with
      | some (text, rest) => some (.string (String.ofList text), rest)
      | none =>
        let run := scalarRun cs
        if isScalar run then some (.scalar (String.ofList run), cs.drop run.length) else none

/-- Read the items of an array up to its bracket. -/
def items? : Nat → Nat → List Char → Option (List Value × List Char)
  | 0, _, _ => none
  | fuel + 1, depth, cs => do
    let rest ← skipLines (cs.length + 1) cs
    match rest with
    | ']' :: rest => return ([], rest)
    | _ =>
      let (first, rest) ← value? fuel depth rest
      let rest ← skipLines (rest.length + 1) rest
      match rest with
      | ',' :: rest =>
        let (others, rest) ← items? fuel depth rest
        return (first :: others, rest)
      | ']' :: rest => return ([first], rest)
      | _ => none

/-- Read the entries of a table up to its brace; there may be none. -/
def entries? : Nat → Nat → List Char → Option (List (List String × Value) × List Char)
  | 0, _, _ => none
  | fuel + 1, depth, cs =>
    match skipSpaces cs with
    | '}' :: rest => some ([], rest)
    | rest => moreEntries? fuel depth rest

/-- Read one entry or more of a table up to its brace. -/
def moreEntries? : Nat → Nat → List Char → Option (List (List String × Value) × List Char)
  | 0, _, _ => none
  | fuel + 1, depth, cs => do
    let (first, rest) ← pair? fuel depth cs
    match skipSpaces rest with
    | ',' :: rest =>
      let (others, rest) ← moreEntries? fuel depth rest
      return (first :: others, rest)
    | '}' :: rest => return ([first], rest)
    | _ => none

/-- Read a key and its value. -/
def pair? : Nat → Nat → List Char → Option ((List String × Value) × List Char)
  | 0, _, _ => none
  | fuel + 1, depth, cs => do
    let (path, rest) ← path? cs
    match rest with
    | '=' :: rest =>
      let (v, rest) ← value? fuel depth (skipSpaces rest)
      return ((path, v), rest)
    | _ => none

end

/-- Read a header up to its closing brackets. -/
def header? (closing : List Char) (cs : List Char) : Option (List String × List Char) := do
  let (path, rest) ← path? cs
  if closing.isPrefixOf rest then return (path, rest.drop closing.length) else none

/-- Read a statement without the end of its line. -/
def statement? (cs : List Char) : Option (Statement × List Char) :=
  match cs with
  | '[' :: '[' :: rest => (header? [']', ']'] rest).map fun (path, rest) => (.element path, rest)
  | '[' :: rest => (header? [']'] rest).map fun (path, rest) => (.header path, rest)
  | _ => (pair? (3 * cs.length + 3) 0 cs).map fun ((path, v), rest) => (.entry path v, rest)

/-- Read all statements. The fuel bounds their number. -/
def statements? : Nat → List Char → Option (List Statement)
  | 0, _ => none
  | fuel + 1, cs => do
    let rest ← skipLines (cs.length + 1) cs
    match rest with
    | [] => return []
    | _ =>
      let (first, rest) ← statement? rest
      let rest ← lineEnd? rest
      let others ← statements? fuel rest
      return first :: others

/-- Read a document, with or without the mark of its byte order. -/
def document? (text : String) : Option (List Statement) :=
  match text.toList with
  | '\ufeff' :: cs => statements? (cs.length + 1) cs
  | cs => statements? (cs.length + 1) cs

end Terse.Toml
