import Terse.Number.Decimal
import Terse.Token.Basic

/-!
# Lexemes

The text of a single token, comment or space at the front of a text: what it is, and how many
characters it takes. Every reader here gets the text from its own first character, or from just
behind it, and counts the characters it has used up.
-/

namespace Terse.Lexeme

open Token (Kind)

/-- Why no lexeme could be read. -/
inductive Fault where
  | invalidCharacter (found : Char)
  | unterminatedLiteral
  | unterminatedComment
  | invalidNumber (text : String)
deriving DecidableEq, Repr, Inhabited

/-- What a lexeme is. -/
inductive Class where
  | blank
  | lineComment
  | blockComment
  | token (kind : Kind)
deriving DecidableEq, Repr, Inhabited

/-- The token of a lexeme, if it is one. -/
def Class.token? : Class → Option Kind
  | .token kind => some kind
  | _ => none

/-- The space between tokens. -/
def isSpace (c : Char) : Bool := c == ' ' || c == '\t' || c == '\r' || c == '\n'

/-- The characters that operators are made of. -/
def isOperatorChar (c : Char) : Bool := "+-*/=<>:&|^?%!.".toList.contains c

/-- The word at the front of a text. -/
def word (cs : List Char) : List Char := cs.takeWhile Letter.isWordChar

/-! ## Comments -/

/-- How many characters a block comment takes, from a place `depth` comments deep, up to and with
the mark that closes the outermost one. Marks are two characters and do not share any. -/
def closeComment : Nat → List Char → Option Nat
  | depth, '{' :: '-' :: cs => (closeComment (depth + 1) cs).map (· + 2)
  | depth, '-' :: '}' :: cs =>
    if depth ≤ 1 then some 2 else (closeComment (depth - 1) cs).map (· + 2)
  | depth, _ :: cs => (closeComment depth cs).map (· + 1)
  | _, [] => none

/-! ## Words -/

/-- The further segments of a name that has started with a capital letter: capitalized ones, then
perhaps a final one in small letters. `skip` characters have been read already. -/
def laterSegments : Nat → List Char → List String × Option String × Nat
  | _, [] => ([], none, 0)
  | skip + 1, _ :: cs =>
    let (segments, last, n) := laterSegments skip cs
    (segments, last, n + 1)
  | 0, c :: cs =>
    match c == '.', cs.head? with
    | true, some first =>
      if Letter.isUppercase first then
        let (segments, last, n) := laterSegments (word cs).length cs
        (String.ofList (word cs) :: segments, last, n + 1)
      else if Letter.isLowercase first then
        ([], some (String.ofList (word cs)), (word cs).length + 1)
      else ([], none, 0)
    | _, _ => ([], none, 0)

/-- The token of a name that starts with a capital letter, from its segments. -/
def capitalized (first : String) (later : List String) : Option String → Kind
  | some name => .lower (first :: later) name
  | none => .upper ((first :: later).dropLast) ((first :: later).getLastD "")

/-- The name, reserved word or underscore at the front of a text. -/
def identifier (cs : List Char) : Kind × Nat :=
  let first := word cs
  let text := String.ofList first
  if text == "_" then (.underscore, 1)
  else if (first.head?.map Letter.isUppercase).getD false then
    let (later, last, n) := laterSegments 0 (cs.drop first.length)
    (capitalized text later last, first.length + n)
  else
    match Keyword.ofText? text with
    | some k => (.keyword k, first.length)
    | none => (.lower [] text, first.length)

/-- What a point starts: two points, or a field. -/
def point (attached : Option Kind) (rest : List Char) : Except Fault (Kind × Nat) :=
  match rest with
  | '.' :: _ => .ok (.dots, 2)
  | c :: _ =>
    if Letter.isLowercase c then
      let field := String.ofList (word rest)
      let closed := (attached.map Kind.closesOperand).getD false
      .ok (if closed then .dotField field else .accessor field, (word rest).length + 1)
    else .error (.invalidCharacter '.')
  | [] => .error (.invalidCharacter '.')

/-! ## Operators -/

/-- The operator or mark at the front of a text. A single minus sign is a negation when it could
not be a subtraction and its operand follows directly. -/
def operator (attached : Option Kind) (cs : List Char) : Kind × Nat :=
  let symbol := cs.takeWhile isOperatorChar
  let negates :=
    (attached.map Kind.opensOperand).getD true &&
      match (cs.drop symbol.length).head? with
      | some c => !Letter.isBlank c && c != ')'
      | none => false
  let kind : Kind :=
    match symbol with
    | ['='] => .equals
    | ['|'] => .pipe
    | ['-', '>'] => .arrow
    | [':'] => .colon
    | ['-'] => if negates then .minus else .operator "-"
    | _ => .operator (String.ofList symbol)
  (kind, symbol.length)

/-! ## Numbers -/

/-- The characters of a decimal numeral, and whether it has a fraction or an exponent. -/
def numeral (isFloat : Bool) : List Char → List Char × Bool
  | [] => ([], isFloat)
  | c :: cs =>
    if c.isDigit then
      let (text, kind) := numeral isFloat cs
      (c :: text, kind)
    else if c == '.' && !isFloat && (cs.head?.map Char.isDigit).getD false then
      let (text, kind) := numeral true cs
      (c :: text, kind)
    else if Numeral.isExponentMark c then
      match cs with
      | '+' :: rest =>
        let (text, kind) := numeral true rest
        (c :: '+' :: text, kind)
      | '-' :: rest =>
        let (text, kind) := numeral true rest
        (c :: '-' :: text, kind)
      | rest =>
        let (text, kind) := numeral true rest
        (c :: text, kind)
    else ([], isFloat)

/-- The hexadecimal number whose digits follow the mark `0x`. -/
def hexNumber (rest : List Char) : Except Fault (Kind × Nat) :=
  let digits := word rest
  match Numeral.bounded? 16 digits with
  | some n => .ok (.hex n, digits.length + 2)
  | none => .error (.invalidNumber ("0x" ++ String.ofList digits))

/-- The decimal number at the front of a text. -/
def decimalNumber (cs : List Char) : Except Fault (Kind × Nat) :=
  let (text, isFloat) := numeral false cs
  let kind? : Option Kind :=
    if isFloat then (Numeral.double? text).map Kind.float
    else (Numeral.bounded? 10 text).map Kind.int
  match kind? with
  | some kind => .ok (kind, text.length)
  | none => .error (.invalidNumber (String.ofList text))

/-- The number at the front of a text. -/
def number (cs : List Char) : Except Fault (Kind × Nat) :=
  match cs with
  | '0' :: 'x' :: rest => hexNumber rest
  | '0' :: 'X' :: rest => hexNumber rest
  | _ => decimalNumber cs

/-! ## Texts and characters -/

/-- The character with this number, if there is one. -/
def charOfNumber? (n : Nat) : Option Char :=
  if n.isValidChar then some (Char.ofNat n) else none

/-- The character whose number is spelled between the braces of an escape; a plus sign may stand
before the digits. -/
def escapedNumber (digits : List Char) : Option Char :=
  let digits := match digits with
    | '+' :: rest => rest
    | _ => digits
  (Numeral.value? 16 digits).bind charOfNumber?

/-- The character that an escape stands for; the text starts behind the backslash. -/
def escape : List Char → Option (Char × Nat)
  | [] => none
  | 'n' :: _ => some ('\n', 1)
  | 't' :: _ => some ('\t', 1)
  | 'r' :: _ => some ('\r', 1)
  | 'u' :: '{' :: cs =>
    let digits := cs.takeWhile (· ≠ '}')
    if digits.length < cs.length then
      (escapedNumber digits).map fun c => (c, digits.length + 3)
    else none
  | 'u' :: _ => none
  | c :: _ => some (c, 1)

/-- The quotation marks that open and close a text: one, or three. -/
def quoteCount (isTriple : Bool) : Nat := if isTriple then 3 else 1

/-- The value of a text, from behind its opening quotes, and how many characters it takes with its
closing ones. Only between three quotes may it hold a line feed or single quotes. `skip`
characters have been read already. -/
def stringBody (isTriple : Bool) : Nat → List Char → Option (List Char × Nat)
  | _, [] => none
  | skip + 1, _ :: cs =>
    (stringBody isTriple skip cs).map fun (value, n) => (value, n + 1)
  | 0, c :: cs =>
    if c = '\n' ∧ !isTriple then none
    else if c = '"' ∧ (!isTriple ∨ cs.take 2 = ['"', '"']) then
      some ([], quoteCount isTriple)
    else if c = '\\' then
      match escape cs with
      | none => none
      | some (e, k) =>
        (stringBody isTriple k cs).map fun (value, n) => (e :: value, n + 1)
    else (stringBody isTriple 0 cs).map fun (value, n) => (c :: value, n + 1)

/-- The text literal whose opening quote is followed by `rest`. -/
def string (rest : List Char) : Except Fault (Kind × Nat) :=
  let isTriple := rest.take 2 = ['"', '"']
  let opening := quoteCount isTriple
  match stringBody isTriple 0 (rest.drop (opening - 1)) with
  | some (value, n) => .ok (.string (String.ofList value), opening + n)
  | none => .error .unterminatedLiteral

/-- The character literal whose opening quote is followed by `rest`. -/
def character (rest : List Char) : Except Fault (Kind × Nat) :=
  let value := match rest with
    | '\\' :: cs => (escape cs).map fun (c, n) => (c, n + 1)
    | c :: _ => if c = '\n' then none else some (c, 1)
    | [] => none
  match value with
  | some (c, n) =>
    if (rest.drop n).head? = some '\'' then .ok (.char c, n + 2)
    else .error .unterminatedLiteral
  | none => .error .unterminatedLiteral

/-! ## Any lexeme -/

/-- The lexeme at the front of a text, and how many characters it takes after its first one `c`.
`attached` is the token that ends where it starts, if there is one. -/
def next (attached : Option Kind) (c : Char) (rest : List Char) : Except Fault (Class × Nat) :=
  let mark (kind : Kind) : Except Fault (Class × Nat) := .ok (.token kind, 0)
  let read (result : Except Fault (Kind × Nat)) : Except Fault (Class × Nat) :=
    result.map fun (kind, n) => (.token kind, n - 1)
  if isSpace c then .ok (.blank, 0)
  else if c = '-' ∧ rest.head? = some '-' then
    .ok (.lineComment, (rest.takeWhile (· ≠ '\n')).length)
  else if c = '{' ∧ rest.head? = some '-' then
    match closeComment 0 (c :: rest) with
    | some n => .ok (.blockComment, n - 1)
    | none => .error .unterminatedComment
  else if c = '(' then mark .leftParen
  else if c = ')' then mark .rightParen
  else if c = '[' then mark .leftBracket
  else if c = ']' then mark .rightBracket
  else if c = '{' then mark .leftBrace
  else if c = '}' then mark .rightBrace
  else if c = ',' then mark .comma
  else if c = '\\' then mark .backslash
  else if c = '"' then read (string rest)
  else if c = '\'' then read (character rest)
  else if c = '.' then read (point attached rest)
  else if c.isDigit then read (number (c :: rest))
  else if Letter.isAlphabetic c || c == '_' then read (.ok (identifier (c :: rest)))
  else if isOperatorChar c then read (.ok (operator attached (c :: rest)))
  else .error (.invalidCharacter c)

end Terse.Lexeme
