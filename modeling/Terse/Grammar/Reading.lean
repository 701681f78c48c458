import Terse.Text.Visible
import Terse.Token.Scan

/-!
# Reading tokens

What a reader of the grammar returns, how it fails, and the small readers that all others are
built from. A reader gets the tokens that are left, and returns what it read together with the
tokens that are left then.
-/

namespace Terse

/-- What a reader was looking for. -/
inductive Expected where
  | mark (kind : Token.Kind)
  | word (keyword : Keyword)
  | expression | pattern | moduleName | exposedItem | operator | declaration | typeName
  | constructorName | declarationName | aliasName | fieldName | recordName | lambdaParameter
  | number | endOfInput
deriving DecidableEq, Repr, Inhabited

/-- How error messages call what was looked for. -/
def Expected.describe : Expected → String
  | mark kind => kind.describe
  | word keyword => Token.quoted keyword.text
  | expression => "expression"
  | pattern => "pattern"
  | moduleName => "module name"
  | exposedItem => "exposed item"
  | operator => "operator"
  | declaration => "declaration"
  | typeName => "type name"
  | constructorName => "constructor name"
  | declarationName => "declaration name"
  | aliasName => "alias name"
  | fieldName => "field name"
  | recordName => "record name"
  | lambdaParameter => "lambda parameter"
  | number => "number"
  | endOfInput => "end of input"

/-- Why a text could not be read. -/
inductive ParseError where
  | unexpected (location : Location) (found : Token.Kind) (expected : Expected)
  | unexpectedEnd (expected : Expected)
  | fault (location : Location) (fault : Lexeme.Fault)
  /-- A construct that is recognized but not read. -/
  | unsupported (location : Location) (construct : Keyword)
deriving DecidableEq, Repr, Inhabited

/-- The text of a fault. -/
def Lexeme.Fault.message : Lexeme.Fault → String
  | invalidCharacter found => "invalid character " ++ Visible.render found
  | unterminatedLiteral => "unterminated literal"
  | unterminatedComment => "unterminated block comment"
  | invalidNumber text => "invalid number literal " ++ Token.quoted text

/-- The text of an error. -/
def ParseError.message : ParseError → String
  | unexpected location found expected =>
    s!"{location.render}: unexpected {found.describe}, expected {expected.describe}"
  | unexpectedEnd expected => s!"unexpected end of input, expected {expected.describe}"
  | fault location f => s!"{location.render}: {f.message}"
  | unsupported location construct =>
    s!"{location.render}: {Token.quoted construct.text} is not supported"

namespace Grammar

open Token (Kind)

/-- What was read, or why it could not be. -/
abbrev Reading := Except ParseError

/-- Fail at the next token. -/
def refuse {α : Type} (expected : Expected) : List Token → Reading α
  | [] => .error (.unexpectedEnd expected)
  | t :: _ => .error (.unexpected t.range.start t.kind expected)

/-- What the next token is. -/
def nextKind (ts : List Token) : Option Kind := ts.head?.map (·.kind)

/-- The next token is of this kind. -/
def nextIs (kind : Kind) (ts : List Token) : Bool := nextKind ts == some kind

/-- Read a token of this kind. -/
def expect (kind : Kind) (expected : Expected) : List Token → Reading (Range × List Token)
  | t :: ts => if t.kind = kind then .ok (t.range, ts) else refuse expected (t :: ts)
  | [] => refuse expected []

/-- Read a mark. -/
def expectMark (kind : Kind) : List Token → Reading (Range × List Token) := expect kind (.mark kind)

/-- Read a reserved word. -/
def expectWord (keyword : Keyword) : List Token → Reading (Range × List Token) :=
  expect (.keyword keyword) (.word keyword)

/-- The layout ends a construct before the next token: there is none, or it starts its row no
further right than column `indent`. -/
def layoutEnds (indent : Nat) : List Token → Bool
  | [] => true
  | t :: _ => t.startsRow && t.range.start.column ≤ indent

/-- Read a name in small letters without a path. -/
def lowerName (expected : Expected) (ts : List Token) : Reading (Located String × List Token) :=
  match ts with
  | ⟨.lower [] name, range, _⟩ :: rest => .ok (⟨name, range⟩, rest)
  | _ => refuse expected ts

/-- Read the path of a module. -/
def moduleName (ts : List Token) : Reading (Located ModuleName × List Token) :=
  match ts with
  | ⟨.upper path name, range, _⟩ :: rest => .ok (⟨⟨path ++ [name]⟩, range⟩, rest)
  | _ => refuse .moduleName ts

/-- Read items with commas between them, at least one. The fuel bounds their number. -/
def commaSeparated {α : Type} (item : List Token → Reading (α × List Token)) :
    Nat → List Token → Reading (List α × List Token)
  | 0, ts => refuse (.mark .comma) ts
  | fuel + 1, ts => do
    let (first, ts) ← item ts
    match ts with
    | ⟨.comma, _, _⟩ :: rest =>
      let (others, ts) ← commaSeparated item fuel rest
      return (first :: others, ts)
    | _ => return ([first], ts)

/-- Read items as long as the next one is announced. The fuel bounds their number. -/
def repeatedly {α : Type} (announced : List Token → Bool)
    (item : List Token → Reading (α × List Token)) : Nat → List Token → Reading (List α × List Token)
  | 0, ts => .ok ([], ts)
  | fuel + 1, ts =>
    if announced ts then do
      let (first, ts) ← item ts
      let (others, ts) ← repeatedly announced item fuel ts
      return (first :: others, ts)
    else .ok ([], ts)

/-- How deep readers may call each other on these tokens: between two tokens that are used up
there are never more than eight calls. -/
def fuelFor (ts : List Token) : Nat := 8 * ts.length + 8

end Grammar

end Terse
