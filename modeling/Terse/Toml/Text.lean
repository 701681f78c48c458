import Terse.Token.Lexeme

/-!
# Spaces, comments and texts

The lexical parts of a TOML document. A reader gets the text that is left, and returns what it read
with the text that is left then.

The readers of TOML serve the outer layer only, where the text of a configuration file is turned
into what the file says. No result rests on them.
-/

namespace Terse.Toml

/-- A character that may stand in comments and texts. -/
def isPlain (c : Char) : Bool := c == '\t' || (0x20 ≤ c.toNat && c.toNat != 0x7f)

/-- The text behind spaces and tabs. -/
def skipSpaces (cs : List Char) : List Char := cs.dropWhile fun c => c == ' ' || c == '\t'

/-- The text behind a line end. -/
def newline? : List Char → Option (List Char)
  | '\n' :: cs => some cs
  | '\r' :: '\n' :: cs => some cs
  | _ => none

/-- The text behind a comment, if there is one. -/
def skipComment : List Char → List Char
  | '#' :: cs => cs.dropWhile isPlain
  | cs => cs

/-- The text behind the rest of a line, which may hold spaces and a comment only. -/
def lineEnd? (cs : List Char) : Option (List Char) :=
  match skipComment (skipSpaces cs) with
  | [] => some []
  | rest => newline? rest

/-- The text behind spaces, comments and line ends; a comment may also end with the text. The fuel
bounds the number of lines. -/
def skipLines : Nat → List Char → Option (List Char)
  | 0, cs => some cs
  | fuel + 1, cs =>
    let rest := skipSpaces cs
    match rest.head? with
    | some '#' | some '\n' | some '\r' => (lineEnd? rest).bind (skipLines fuel)
    | _ => some rest

/-! ## Texts -/

/-- The character that this many hexadecimal digits stand for. -/
def codePoint? (count : Nat) (cs : List Char) : Option (Char × List Char) :=
  if cs.length < count then none
  else ((Numeral.value? 16 (cs.take count)).bind Lexeme.charOfNumber?).map (·, cs.drop count)

/-- The character that an escape stands for; the text starts behind the backslash. -/
def escape? : List Char → Option (Char × List Char)
  | 'b' :: cs => some ('\x08', cs)
  | 't' :: cs => some ('\t', cs)
  | 'n' :: cs => some ('\n', cs)
  | 'f' :: cs => some ('\x0c', cs)
  | 'r' :: cs => some ('\r', cs)
  | '"' :: cs => some ('"', cs)
  | '\\' :: cs => some ('\\', cs)
  | 'u' :: cs => codePoint? 4 cs
  | 'U' :: cs => codePoint? 8 cs
  | _ => none

/-- The rest of a text between double quotes on one line. -/
def basicText : Nat → List Char → Option (List Char × List Char)
  | 0, _ => none
  | fuel + 1, cs =>
    match cs with
    | '"' :: rest => some ([], rest)
    | '\\' :: rest => do
      let (c, rest) ← escape? rest
      let (value, rest) ← basicText fuel rest
      return (c :: value, rest)
    | c :: rest =>
      if isPlain c then do
        let (value, rest) ← basicText fuel rest
        return (c :: value, rest)
      else none
    | [] => none

/-- The rest of a text between apostrophes on one line. -/
def literalText (cs : List Char) : Option (List Char × List Char) :=
  let value := cs.takeWhile fun c => isPlain c && c != '\''
  match cs.drop value.length with
  | '\'' :: rest => some (value, rest)
  | _ => none

/-- The text behind spaces and line ends. -/
def skipBlank : List Char → List Char
  | ' ' :: cs | '\t' :: cs | '\n' :: cs => skipBlank cs
  | '\r' :: '\n' :: cs => skipBlank cs
  | cs => cs

/-- The text behind a backslash at the end of a line, and behind all spaces and line ends after
it. -/
def continuation? (cs : List Char) : Option (List Char) :=
  (newline? (skipSpaces cs)).map skipBlank

/-- Quotes in a text between three of them: those that belong to the text, and the text behind the
closing ones if there are enough. -/
def closing? (quote : Char) (cs : List Char) : List Char × Option (List Char) :=
  let count := (cs.takeWhile (· == quote)).length
  if 3 ≤ count then
    let kept := min (count - 3) 2
    (List.replicate kept quote, some (cs.drop (kept + 3)))
  else (List.replicate count quote, none)

/-- The rest of a text between three quotes. Between double quotes escapes are read. -/
def longText (quote : Char) : Nat → List Char → Option (List Char × List Char)
  | 0, _ => none
  | fuel + 1, cs =>
    match cs with
    | [] => none
    | c :: rest =>
      if c = quote then
        match closing? quote cs with
        | (kept, some rest) => some (kept, rest)
        | (kept, none) => do
          let (value, rest) ← longText quote fuel (cs.drop kept.length)
          return (kept ++ value, rest)
      else if c = '\\' ∧ quote = '"' then
        match continuation? rest with
        | some rest => longText quote fuel rest
        | none => do
          let (e, rest) ← escape? rest
          let (value, rest) ← longText quote fuel rest
          return (e :: value, rest)
      else
        match newline? cs with
        | some rest => do
          let (value, rest) ← longText quote fuel rest
          return ('\n' :: value, rest)
        | none =>
          if isPlain c then do
            let (value, rest) ← longText quote fuel rest
            return (c :: value, rest)
          else none

/-- The text that starts here, if one does: four kinds of quotes open one. -/
def text? (cs : List Char) : Option (List Char × List Char) :=
  match cs with
  | '"' :: '"' :: '"' :: rest => longText '"' cs.length ((newline? rest).getD rest)
  | '\'' :: '\'' :: '\'' :: rest => longText '\'' cs.length ((newline? rest).getD rest)
  | '"' :: rest => basicText cs.length rest
  | '\'' :: rest => literalText rest
  | _ => none

/-! ## Keys -/

/-- A character of a key without quotes. -/
def isKeyChar (c : Char) : Bool := c.isAlphanum || c == '_' || c == '-'

/-- A single key: in quotes on one line, or bare. -/
def simpleKey? (cs : List Char) : Option (String × List Char) :=
  match cs with
  | '"' :: rest => (basicText cs.length rest).map fun (key, rest) => (String.ofList key, rest)
  | '\'' :: rest => (literalText rest).map fun (key, rest) => (String.ofList key, rest)
  | _ =>
    let key := cs.takeWhile isKeyChar
    if key.isEmpty then none else some (String.ofList key, cs.drop key.length)

/-- Keys with points between them, and spaces anywhere around them. -/
def key? : Nat → List Char → Option (List String × List Char)
  | 0, _ => none
  | fuel + 1, cs => do
    let (first, rest) ← simpleKey? (skipSpaces cs)
    match skipSpaces rest with
    | '.' :: rest =>
      let (others, rest) ← key? fuel rest
      return (first :: others, rest)
    | rest => return ([first], rest)

end Terse.Toml
