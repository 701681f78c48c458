import Terse.Grammar.Expr
import Terse.Tree.Module

/-!
# Reading modules

A module is a header, imports, and declarations. Declarations start in the first column; type
annotations, type aliases and ports are passed over.
-/

namespace Terse.Grammar

open Token (Kind)

/-- The column that ends declarations. -/
def topColumn : Nat := 1

/-- Read one item of an exposing list. -/
def exposedItem (ts : List Token) : Reading (ExposedItem × List Token) :=
  match ts with
  | ⟨.lower _ name, _, _⟩ :: rest => .ok (.value name, rest)
  | ⟨.upper _ name, _, _⟩ :: ⟨.leftParen, _, _⟩ :: ⟨.dots, _, _⟩ :: rest => do
    let (_, ts) ← expectMark .rightParen rest
    return (.type name true, ts)
  | ⟨.upper _ name, _, _⟩ :: rest => .ok (.type name false, rest)
  | ⟨.leftParen, _, _⟩ :: ⟨.operator symbol, _, _⟩ :: rest => do
    let (_, ts) ← expectMark .rightParen rest
    return (.operator symbol, ts)
  | ⟨.leftParen, _, _⟩ :: rest => refuse .operator rest.tail
  | _ => refuse .exposedItem ts

/-- Read an exposing list. -/
def exposing (ts : List Token) : Reading (Exposing × List Token) := do
  let (_, ts) ← expectMark .leftParen ts
  match ts with
  | ⟨.dots, _, _⟩ :: rest =>
    let (_, ts) ← expectMark .rightParen rest
    return (.all, ts)
  | _ =>
    let (items, ts) ← commaSeparated exposedItem (ts.length + 1) ts
    let (_, ts) ← expectMark .rightParen ts
    return (.only items, ts)

/-- Read what may follow a reserved word. -/
def optional {α : Type} (keyword : Keyword) (read : List Token → Reading (α × List Token))
    (ts : List Token) : Reading (Option α × List Token) :=
  if nextIs (.keyword keyword) ts then do
    let (value, ts) ← read ts.tail
    return (some value, ts)
  else .ok (none, ts)

/-- Read an import. -/
def importDecl (ts : List Token) : Reading (Import × List Token) := do
  let (_, ts) ← expectWord .importWord ts
  let (path, ts) ← moduleName ts
  let (shortName, ts) ← optional .asWord moduleName ts
  let (exposed, ts) ← optional .exposingWord exposing ts
  return (⟨path, shortName.map (·.value), exposed⟩, ts)

/-- Pass over the rest of a declaration, and its first token in any case. -/
def skipDeclaration (ts : List Token) : List Token :=
  ts.tail.dropWhile fun t => !layoutEnds topColumn [t]

/-- Read the arguments of a constructor: how many there are, where the last one ends, and the
tokens after them. `depth` brackets are open. -/
def constructorArgs (depth arity : Nat) (range : Range) : List Token → Nat × Range × List Token
  | [] => (arity, range, [])
  | t :: ts =>
    if layoutEnds topColumn (t :: ts) then (arity, range, t :: ts)
    else
      let range' := range.merge t.range
      match t.kind with
      | .pipe =>
        if depth = 0 then (arity, range, t :: ts) else constructorArgs depth arity range' ts
      | .leftParen | .leftBracket | .leftBrace =>
        constructorArgs (depth + 1) (if depth = 0 then arity + 1 else arity) range' ts
      | .rightParen | .rightBracket | .rightBrace => constructorArgs (depth - 1) arity range' ts
      | .lower _ _ | .upper _ _ =>
        constructorArgs depth (if depth = 0 then arity + 1 else arity) range' ts
      | _ => constructorArgs depth arity range' ts

/-- Read the constructors of a custom type. The fuel bounds their number. -/
def constructors : Nat → List Token → Reading (List (Located Constructor) × List Token)
  | 0, ts => refuse .constructorName ts
  | fuel + 1, ts =>
    match ts with
    | ⟨.upper [] name, start, _⟩ :: rest => do
      let (arity, range, ts) := constructorArgs 0 0 start rest
      let first : Located Constructor := ⟨⟨name, arity⟩, range⟩
      if nextIs .pipe ts && !layoutEnds topColumn ts then
        let (others, ts) ← constructors fuel ts.tail
        return (first :: others, ts)
      else return ([first], ts)
    | _ => refuse .constructorName ts

/-- Read a custom type after its reserved word. -/
def customType (ts : List Token) : Reading (CustomType × List Token) :=
  match ts with
  | ⟨.upper [] name, range, _⟩ :: rest => do
    let params := rest.dropWhile fun t => match t.kind with
      | .lower _ _ => true
      | _ => false
    let (_, ts) ← expectMark .equals params
    let (variants, ts) ← constructors (ts.length + 1) ts
    return (⟨⟨name, range⟩, variants⟩, ts)
  | _ => refuse .typeName ts

/-- Read the parameters of a value up to its equals sign. The fuel bounds their number. -/
def parameters : Nat → List Token → Reading (List Pattern × List Token)
  | 0, ts => refuse (.mark .equals) ts
  | fuel + 1, ts =>
    if nextIs .equals ts then .ok ([], ts)
    else if layoutEnds topColumn ts then refuse (.mark .equals) ts
    else do
      let (first, ts) ← readAtomPattern ts
      let (others, ts) ← parameters fuel ts
      return (first :: others, ts)

/-- Read a value. -/
def valueDecl (ts : List Token) : Reading (ValueDecl × List Token) := do
  let (name, ts) ← lowerName .declarationName ts
  let (params, ts) ← parameters (ts.length + 1) ts
  let (body, ts) ← readExpression topColumn ts.tail
  return (⟨name, params, body⟩, ts)

/-- Read a declaration, or pass over one that is not kept. -/
def declaration (ts : List Token) : Reading (Option Declaration × List Token) :=
  match ts with
  | ⟨.keyword .typeWord, _, _⟩ :: rest =>
    if nextIs (.keyword .aliasWord) rest then .ok (none, skipDeclaration ts)
    else do
      let (decl, ts) ← customType rest
      return (some (.customType decl), ts)
  | ⟨.keyword .portWord, _, _⟩ :: _ => .ok (none, skipDeclaration ts)
  | ⟨.lower [] name, _, _⟩ :: rest =>
    if nextIs .colon rest || name == "infix" then .ok (none, skipDeclaration ts)
    else do
      let (decl, ts) ← valueDecl ts
      return (some (.value decl), ts)
  | _ => refuse .declaration ts

/-- Read the imports. The fuel bounds their number. -/
def imports : Nat → List Token → Reading (List Import × List Token)
  | 0, ts => refuse (.word .importWord) ts
  | fuel + 1, ts =>
    if nextIs (.keyword .importWord) ts then do
      let (first, ts) ← importDecl ts
      let (others, ts) ← imports fuel ts
      return (first :: others, ts)
    else .ok ([], ts)

/-- Read declarations to the end of the text. The fuel bounds their number. -/
def declarations : Nat → List Token → Reading (List Declaration)
  | 0, ts => refuse .declaration ts
  | fuel + 1, ts =>
    match ts with
    | [] => .ok []
    | _ => do
      let (first, ts) ← declaration ts
      let others ← declarations fuel ts
      return first.toList ++ others

/-- The name and exposing list of a module without a header. -/
def defaultHeader : Located ModuleName × Exposing := (⟨⟨["Main"]⟩, Range.nowhere⟩, .all)

/-- Read the header of a module, if there is one. -/
def header (ts : List Token) : Reading ((Located ModuleName × Exposing) × List Token) := do
  let ts := if nextIs (.keyword .portWord) ts then ts.tail else ts
  if nextIs (.keyword .moduleWord) ts then
    let (name, ts) ← moduleName ts.tail
    let (_, ts) ← expectWord .exposingWord ts
    let (exposed, ts) ← exposing ts
    return ((name, exposed), ts)
  else return (defaultHeader, ts)

/-- The tokens of a text. -/
def tokens (text : List Char) : Reading (List Token) :=
  match Token.scan text with
  | .ok ts => .ok ts
  | .error (location, fault) => .error (.fault location fault)

end Terse.Grammar

namespace Terse

/-- Read the text of a module. -/
def Module.parse (text : String) : Except ParseError Module := do
  let ts ← Grammar.tokens text.toList
  let ((name, exposed), ts) ← Grammar.header ts
  let (imports, ts) ← Grammar.imports (ts.length + 1) ts
  let declarations ← Grammar.declarations (ts.length + 1) ts
  return ⟨name, exposed, imports, declarations, SourceText.ofString text⟩

/-- Read a text that is a single expression. The text must end with the expression: a token that
starts where the expression ends, or later, is refused. -/
def Expr.parse (text : String) : Except ParseError Expr := do
  let ts ← Grammar.tokens text.toList
  let (e, _) ← Grammar.readExpression 0 ts
  match ts.find? fun t => e.range.stop ≤ t.range.start with
  | some t => .error (.unexpected t.range.start t.kind .endOfInput)
  | none => return e

end Terse
