import Terse.Name
import Terse.Number.Shortest
import Terse.Text.Location

/-!
# Tokens

The words and marks that a source text is made of, each with its range and a note whether it is
the first one on its row, which decides the layout.
-/

namespace Terse

/-- The reserved words. -/
inductive Keyword where
  | ifWord | thenWord | elseWord | caseWord | ofWord | letWord | inWord | typeWord | aliasWord
  | moduleWord | exposingWord | importWord | asWord | portWord
deriving DecidableEq, Repr, Inhabited

namespace Keyword

/-- Every reserved word. -/
def all : List Keyword :=
  [ifWord, thenWord, elseWord, caseWord, ofWord, letWord, inWord, typeWord, aliasWord, moduleWord,
   exposingWord, importWord, asWord, portWord]

/-- How the word is written. -/
def text : Keyword → String
  | ifWord => "if"
  | thenWord => "then"
  | elseWord => "else"
  | caseWord => "case"
  | ofWord => "of"
  | letWord => "let"
  | inWord => "in"
  | typeWord => "type"
  | aliasWord => "alias"
  | moduleWord => "module"
  | exposingWord => "exposing"
  | importWord => "import"
  | asWord => "as"
  | portWord => "port"

/-- The reserved word that a text spells. -/
def ofText? (word : String) : Option Keyword := all.find? (·.text == word)

end Keyword

namespace Token

/-- What a token is. -/
inductive Kind where
  /-- A name that starts with a small letter, with the path before it. -/
  | lower (path : List String) (name : String)
  /-- A name that starts with a capital letter, with the path before it. -/
  | upper (path : List String) (name : String)
  | keyword (word : Keyword)
  | int (value : Nat)
  | hex (value : Nat)
  | float (value : Double)
  | string (value : String)
  | char (value : Char)
  | operator (symbol : String)
  /-- A minus sign written directly against its operand. -/
  | minus
  /-- A field written directly after the record it is read from. -/
  | dotField (field : String)
  /-- A field on its own: the function that reads it. -/
  | accessor (field : String)
  | leftParen | rightParen | leftBracket | rightBracket | leftBrace | rightBrace
  | comma | pipe | equals | arrow | colon | dots | backslash | underscore
deriving DecidableEq, Repr, Inhabited

/-- A text between backquotes. -/
def quoted (text : String) : String := "`" ++ text ++ "`"

namespace Kind

/-- How error messages call the token. -/
def describe : Kind → String
  | lower path name | upper path name => quoted (dotted (path ++ [name]))
  | keyword word => "keyword " ++ quoted word.text
  | int n | hex n => "number " ++ quoted (toString n)
  | float x => "number " ++ quoted x.render
  | string _ => "string literal"
  | char _ => "char literal"
  | operator symbol => "operator " ++ quoted symbol
  | minus => quoted "-"
  | dotField field | accessor field => quoted ("." ++ field)
  | leftParen => quoted "("
  | rightParen => quoted ")"
  | leftBracket => quoted "["
  | rightBracket => quoted "]"
  | leftBrace => quoted "\x7b"
  | rightBrace => quoted "\x7d"
  | comma => quoted ","
  | pipe => quoted "|"
  | equals => quoted "="
  | arrow => quoted "->"
  | colon => quoted ":"
  | dots => quoted ".."
  | backslash => quoted "\\"
  | underscore => quoted "_"

/-- After such a token an attached minus sign starts a negation, not a subtraction. -/
def opensOperand : Kind → Bool
  | leftParen | leftBracket | leftBrace | comma | operator _ | minus | equals | arrow | pipe
  | backslash | keyword _ => true
  | _ => false

/-- After such a token an attached field is read from what the token closes. -/
def closesOperand : Kind → Bool
  | lower _ _ | rightParen | rightBrace | dotField _ => true
  | _ => false

end Kind

end Token

/-- A token of a source text. -/
structure Token where
  kind : Token.Kind
  range : Range
  /-- No other token ends on the row that this one ends on. -/
  startsRow : Bool
deriving DecidableEq, Repr, Inhabited

end Terse
