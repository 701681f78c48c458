import Terse.Grammar.Reading
import Terse.Tree.Pattern

/-!
# Reading patterns
-/

namespace Terse.Grammar

open Token (Kind)

/-- The next token can start a pattern that stands as an argument. -/
def startsPatternAtom (ts : List Token) : Bool :=
  match nextKind ts with
  | some kind => match kind with
    | .underscore | .lower _ _ | .upper _ _ | .int _ | .hex _ | .float _ | .string _ | .char _
    | .minus | .leftParen | .leftBracket | .leftBrace => true
    | _ => false
  | none => false

/-- Read a number that follows a minus sign, as a pattern for its negation. -/
def negatedNumber (minus : Range) (ts : List Token) : Reading (Pattern × List Token) :=
  match ts with
  | ⟨.int n, range, _⟩ :: rest => .ok (.literal (minus.merge range) (.int (-(n : Int))), rest)
  | ⟨.float x, range, _⟩ :: rest => .ok (.literal (minus.merge range) (.float x.negate), rest)
  | _ => refuse .number ts

/-- Read the further names given to a pattern. -/
def aliases (inner : Pattern) : Nat → List Token → Reading (Pattern × List Token)
  | 0, ts => refuse .pattern ts
  | fuel + 1, ts =>
    match ts with
    | ⟨.keyword .asWord, _, _⟩ :: rest => do
      let (name, ts) ← lowerName .aliasName rest
      aliases (.named (inner.range.merge name.range) inner name) fuel ts
    | _ => .ok (inner, ts)

mutual

/-- Read a pattern. -/
def pattern : Nat → List Token → Reading (Pattern × List Token)
  | 0, ts => refuse .pattern ts
  | fuel + 1, ts => do
    let (inner, ts) ← consPattern fuel ts
    aliases inner (ts.length + 1) ts

/-- Read a pattern without further names: patterns of elements, and of the tail after them. -/
def consPattern : Nat → List Token → Reading (Pattern × List Token)
  | 0, ts => refuse .pattern ts
  | fuel + 1, ts => do
    let (head, ts) ← applicationPattern fuel ts
    if nextIs (.operator "::") ts then
      let (tail, ts) ← consPattern fuel ts.tail
      return (.cons (head.range.merge tail.range) head tail, ts)
    else return (head, ts)

/-- Read a constructor with its arguments, or a pattern that stands as an argument. -/
def applicationPattern : Nat → List Token → Reading (Pattern × List Token)
  | 0, ts => refuse .pattern ts
  | fuel + 1, ts =>
    match ts with
    | ⟨.upper path name, range, _⟩ :: rest => do
      let (args, ts) ← repeatedly startsPatternAtom (atomPattern fuel) rest.length rest
      return (.ctor (args.foldl (fun r p => r.merge p.range) range) ⟨⟨path⟩, name⟩ args, ts)
    | _ => atomPattern fuel ts

/-- Read a pattern that stands as an argument. -/
def atomPattern : Nat → List Token → Reading (Pattern × List Token)
  | 0, ts => refuse .pattern ts
  | fuel + 1, ts =>
    match ts with
    | ⟨.underscore, range, _⟩ :: rest => .ok (.wild range, rest)
    | ⟨.lower [] name, range, _⟩ :: rest => .ok (.var range name, rest)
    | ⟨.upper path name, range, _⟩ :: rest => .ok (.ctor range ⟨⟨path⟩, name⟩ [], rest)
    | ⟨.int n, range, _⟩ :: rest => .ok (.literal range (.int n), rest)
    | ⟨.hex n, range, _⟩ :: rest => .ok (.literal range (.hex n), rest)
    | ⟨.float x, range, _⟩ :: rest => .ok (.literal range (.float x), rest)
    | ⟨.string s, range, _⟩ :: rest => .ok (.literal range (.string s), rest)
    | ⟨.char c, range, _⟩ :: rest => .ok (.literal range (.char c), rest)
    | ⟨.minus, range, _⟩ :: rest => negatedNumber range rest
    | ⟨.leftParen, start, _⟩ :: rest =>
      match rest with
      | ⟨.rightParen, stop, _⟩ :: rest => .ok (.unit (start.merge stop), rest)
      | _ => do
        let (items, ts) ← commaSeparated (pattern fuel) rest.length.succ rest
        let (stop, ts) ← expectMark .rightParen ts
        match items with
        | [inner] => return (.paren (start.merge stop) inner, ts)
        | _ => return (.tuple (start.merge stop) items, ts)
    | ⟨.leftBracket, start, _⟩ :: rest =>
      match rest with
      | ⟨.rightBracket, stop, _⟩ :: rest => .ok (.list (start.merge stop) [], rest)
      | _ => do
        let (items, ts) ← commaSeparated (pattern fuel) rest.length.succ rest
        let (stop, ts) ← expectMark .rightBracket ts
        return (.list (start.merge stop) items, ts)
    | ⟨.leftBrace, start, _⟩ :: rest =>
      match rest with
      | ⟨.rightBrace, stop, _⟩ :: rest => .ok (.record (start.merge stop) [], rest)
      | _ => do
        let (fields, ts) ← commaSeparated (lowerName .fieldName) rest.length.succ rest
        let (stop, ts) ← expectMark .rightBrace ts
        return (.record (start.merge stop) fields, ts)
    | _ => refuse .pattern ts

end

/-- Read a pattern. -/
def readPattern (ts : List Token) : Reading (Pattern × List Token) := pattern (fuelFor ts) ts

/-- Read a pattern that stands as an argument. -/
def readAtomPattern (ts : List Token) : Reading (Pattern × List Token) :=
  atomPattern (fuelFor ts) ts

end Terse.Grammar
