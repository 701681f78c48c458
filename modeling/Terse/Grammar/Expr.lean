import Terse.Grammar.Pattern
import Terse.Grammar.Precedence
import Terse.Tree.Expr

/-!
# Reading expressions

Operators are grouped by precedence. Layout ends an expression: outside brackets it stops before a
token that starts its row at or left of the column of what it belongs to.
-/

namespace Terse.Grammar

open Token (Kind)

/-- The next token can start an argument. -/
def startsAtom (ts : List Token) : Bool :=
  match nextKind ts with
  | some kind => match kind with
    | .lower _ _ | .upper _ _ | .int _ | .hex _ | .float _ | .string _ | .char _ | .accessor _
    | .minus | .leftParen | .leftBracket | .leftBrace => true
    | _ => false
  | none => false

/-- Read the fields that are taken of an expression one after the other. -/
def accesses (owner : Expr) : List Token → Expr × List Token
  | ⟨.dotField field, range, _⟩ :: rest =>
    let name : Located String := ⟨field, ⟨range.start.after '.', range.stop⟩⟩
    accesses (.access (owner.range.merge range) owner name) rest
  | ts => (owner, ts)

/-- A function with the arguments that follow it; without any it stands alone. -/
def applied (fn : Expr) (args : List Expr) : Expr :=
  match args.getLast? with
  | some last => .app (fn.range.merge last.range) fn args
  | none => fn

/-- The name of the record that an update starts from, if the braces start one. -/
def updateBase (ts : List Token) : Reading (Option (Located String) × List Token) :=
  if nextIs .pipe ts.tail then do
    let (base, ts) ← lowerName .recordName ts
    return (some base, ts.tail)
  else return (none, ts)

mutual

/-- Read an expression to the end of its layout. -/
def expression : Nat → Nat → List Token → Reading (Expr × List Token)
  | 0, _, ts => refuse .expression ts
  | fuel + 1, indent, ts =>
    if layoutEnds indent ts then refuse .expression ts else operation fuel 0 indent ts

/-- Read operands and operators of at least a level. -/
def operation : Nat → Nat → Nat → List Token → Reading (Expr × List Token)
  | 0, _, _, ts => refuse .expression ts
  | fuel + 1, least, indent, ts => do
    let (left, ts) ← operand fuel indent ts
    operators fuel least indent left ts

/-- Read further operators of at least a level, after the left operand. -/
def operators : Nat → Nat → Nat → Expr → List Token → Reading (Expr × List Token)
  | 0, _, _, _, ts => refuse .expression ts
  | fuel + 1, least, indent, left, ts =>
    if layoutEnds indent ts then .ok (left, ts)
    else match ts with
      | ⟨.operator symbol, _, _⟩ :: rest =>
        let precedence := Precedence.ofSymbol symbol
        if precedence.level < least then .ok (left, ts)
        else do
          let (right, ts) ← operation fuel precedence.rightLeast indent rest
          operators fuel least indent (.binary (left.range.merge right.range) symbol left right) ts
      | _ => .ok (left, ts)

/-- Read an operand: a conditional, a case, a function, or an application. -/
def operand : Nat → Nat → List Token → Reading (Expr × List Token)
  | 0, _, ts => refuse .expression ts
  | fuel + 1, indent, ts =>
    match ts with
    | ⟨.keyword .ifWord, start, _⟩ :: rest => do
      let (condition, ts) ← expression fuel indent rest
      let (_, ts) ← expectWord .thenWord ts
      let (thenBranch, ts) ← expression fuel indent ts
      let (_, ts) ← expectWord .elseWord ts
      let (elseBranch, ts) ← expression fuel indent ts
      return (.cond (start.merge elseBranch.range) condition thenBranch elseBranch, ts)
    | ⟨.keyword .caseWord, start, _⟩ :: rest => do
      let (scrutinee, ts) ← expression fuel indent rest
      let (_, ts) ← expectWord .ofWord ts
      let column := (ts.head?.map (·.range.start.column)).getD 0
      let (first, others, ts) ← branches fuel indent column ts
      let last := others.getLastD first
      return (.case (start.merge last.body.range) scrutinee (first :: others), ts)
    | ⟨.backslash, start, _⟩ :: rest => do
      let (params, ts) ← repeatedly (!nextIs .arrow ·) readAtomPattern (rest.length + 1) rest
      if params.isEmpty then refuse .lambdaParameter ts
      else
        let (body, ts) ← expression fuel indent ts.tail
        return (.lambda (start.merge body.range) params body, ts)
    | ⟨.keyword .letWord, start, _⟩ :: _ => .error (.unsupported start.start .letWord)
    | _ => do
      let (fn, ts) ← atom fuel indent ts
      let more (ts : List Token) : Bool := !layoutEnds indent ts && startsAtom ts
      let (args, ts) ← repeatedly more (atom fuel indent) ts.length ts
      return (applied fn args, ts)

/-- Read the branches of a case whose patterns start in a column: the first one and the others. -/
def branches : Nat → Nat → Nat → List Token → Reading (Branch × List Branch × List Token)
  | 0, _, _, ts => refuse .pattern ts
  | fuel + 1, indent, column, ts => do
    let (pattern, ts) ← readPattern ts
    let (_, ts) ← expectMark .arrow ts
    let (body, ts) ← expression fuel column ts
    let branch : Branch := .mk pattern body
    match ts with
    | next :: _ =>
      if next.startsRow ∧ next.range.start.column = column ∧ indent < column then
        let (second, others, ts) ← branches fuel indent column ts
        return (branch, second :: others, ts)
      else return (branch, [], ts)
    | [] => return (branch, [], [])

/-- Read an expression that stands as an argument. -/
def atom : Nat → Nat → List Token → Reading (Expr × List Token)
  | 0, _, ts => refuse .expression ts
  | fuel + 1, indent, ts =>
    match ts with
    | ⟨.lower path name, range, _⟩ :: rest => .ok (accesses (.var range ⟨⟨path⟩, name⟩) rest)
    | ⟨.upper path name, range, _⟩ :: rest => .ok (accesses (.var range ⟨⟨path⟩, name⟩) rest)
    | ⟨.int n, range, _⟩ :: rest => .ok (accesses (.literal range (.int n)) rest)
    | ⟨.hex n, range, _⟩ :: rest => .ok (accesses (.literal range (.hex n)) rest)
    | ⟨.float x, range, _⟩ :: rest => .ok (accesses (.literal range (.float x)) rest)
    | ⟨.string s, range, _⟩ :: rest => .ok (accesses (.literal range (.string s)) rest)
    | ⟨.char c, range, _⟩ :: rest => .ok (accesses (.literal range (.char c)) rest)
    | ⟨.accessor field, range, _⟩ :: rest => .ok (accesses (.accessor range field) rest)
    | ⟨.minus, start, _⟩ :: rest => do
      let (inner, ts) ← atom fuel indent rest
      return (.negate (start.merge inner.range) inner, ts)
    | ⟨.leftParen, start, _⟩ :: rest => do
      let (e, ts) ← afterParen fuel start rest
      return accesses e ts
    | ⟨.leftBracket, start, _⟩ :: rest =>
      match rest with
      | ⟨.rightBracket, stop, _⟩ :: rest => .ok (.list (start.merge stop) [], rest)
      | _ => do
        let (items, ts) ← commaSeparated (expression fuel 0) (rest.length + 1) rest
        let (stop, ts) ← expectMark .rightBracket ts
        return (.list (start.merge stop) items, ts)
    | ⟨.leftBrace, start, _⟩ :: rest => do
      let (e, ts) ← afterBrace fuel start rest
      return accesses e ts
    | _ => refuse .expression ts

/-- Read what follows an opening parenthesis: the unit, an operator as a function, a tuple, or an
expression in parentheses. -/
def afterParen : Nat → Range → List Token → Reading (Expr × List Token)
  | 0, _, ts => refuse .expression ts
  | fuel + 1, start, ts =>
    match ts with
    | ⟨.rightParen, stop, _⟩ :: rest => .ok (.unit (start.merge stop), rest)
    | ⟨.operator symbol, _, _⟩ :: ⟨.rightParen, stop, _⟩ :: rest =>
      .ok (.operatorFn (start.merge stop) symbol, rest)
    | _ => do
      let (items, ts) ← commaSeparated (expression fuel 0) (ts.length + 1) ts
      let (stop, ts) ← expectMark .rightParen ts
      match items with
      | [inner] => return (.paren (start.merge stop) inner, ts)
      | _ => return (.tuple (start.merge stop) items, ts)

/-- Read what follows an opening brace: a record or a record update. -/
def afterBrace : Nat → Range → List Token → Reading (Expr × List Token)
  | 0, _, ts => refuse .expression ts
  | fuel + 1, start, ts =>
    match ts with
    | ⟨.rightBrace, stop, _⟩ :: rest => .ok (.record (start.merge stop) [], rest)
    | _ => do
      let (base, ts) ← updateBase ts
      let (setters, ts) ← commaSeparated (setter fuel) (ts.length + 1) ts
      let (stop, ts) ← expectMark .rightBrace ts
      match base with
      | some base => return (.update (start.merge stop) base setters, ts)
      | none => return (.record (start.merge stop) setters, ts)

/-- Read a field and its value. -/
def setter : Nat → List Token → Reading (Setter × List Token)
  | 0, ts => refuse .fieldName ts
  | fuel + 1, ts => do
    let (field, ts) ← lowerName .fieldName ts
    let (_, ts) ← expectMark .equals ts
    let (value, ts) ← expression fuel 0 ts
    return (.mk field value, ts)

end

/-- Read an expression to the end of its layout. -/
def readExpression (indent : Nat) (ts : List Token) : Reading (Expr × List Token) :=
  expression (fuelFor ts) indent ts

end Terse.Grammar
