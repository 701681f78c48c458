import Terse.Rule.Family

/-!
# Texts

Calls of the functions of `String`, and the operator `++` on texts.
-/

namespace Terse.Rule.Strings

/-- The text of the empty text. -/
def emptyText : String := "\"\""

/-- A call whose argument with this index is the empty text, with its result. -/
def onEmptyString (lib : Library) (ctx : Context) (call : Call) (index : Nat) (result : String) :
    Option Finding :=
  match call.arg? index with
  | some s =>
    if s.isEmptyString then
      some (lib.replaceCall ctx call
        s!"Using {lib.displayCall call} on an empty string will result in {result}" result true)
    else none
  | none => none

/-- Calls of `String.isEmpty` on a known text. -/
def isEmpty : CallCheck := fun lib ctx call =>
  match (call.arg? 0).bind Expr.string? with
  | none => none
  | some s =>
    let text := ctx.boolText s.isEmpty
    some (lib.replaceCall ctx call s!"The call to String.isEmpty will result in {text}" text true)

/-- Calls of `String.concat` on the empty list. -/
def concat : CallCheck := fun lib ctx call =>
  match call.arg? 0 with
  | some l =>
    if l.isEmptyList then
      some (lib.replaceCall ctx call
        s!"Using String.concat on an empty list will result in {emptyText}" emptyText true)
    else none
  | none => none

/-- The argument with this index is the empty list. -/
def hasEmptyList (call : Call) (index : Nat) : Bool :=
  match call.arg? index with
  | some l => l.isEmptyList
  | none => false

/-- Calls of `String.join` on the empty list, or with the empty text between. -/
def join : CallCheck := fun lib ctx call =>
  match call.arg? 0 with
  | none => none
  | some separator =>
    if hasEmptyList call 1 then
      some (lib.replaceCall ctx call
        s!"Using String.join on an empty list will result in {emptyText}" emptyText true)
    else if separator.isEmptyString && call.argIsAdjacent 0 then
      some (.fixing lib.code "Use String.concat instead"
        [s!"Using String.join with {emptyText} is the same as using String.concat."] call.fnRange
        [.replace ⟨call.fnRange.start, separator.range.stop⟩ (lib.qualify ctx "concat")])
    else none

/-- Calls of `String.length` on a known text. -/
def length : CallCheck := fun lib ctx call =>
  match (call.arg? 0).bind Expr.string? with
  | none => none
  | some s =>
    some (lib.replaceCall ctx call s!"The length of the string is {s.length}" (toString s.length)
      true)

/-- Calls of `String.repeat`. -/
def replicate : CallCheck := fun lib ctx call =>
  let times := (call.arg? 0).bind Expr.int?
  if (times.map fun n => decide (n ≤ 0)).getD false then
    some (lib.valueOrAlways ctx call "String.repeat will result in an empty string" 1 emptyText
      true)
  else if times = some 1 then
    some (lib.keepArgOrIdentity ctx call "String.repeat 1 won't do anything" 1)
  else onEmptyString lib ctx call 1 emptyText

/-- Calls of `String.words` and `String.lines`. -/
def split : CallCheck := fun lib ctx call => onEmptyString lib ctx call 0 "[]"

/-- Calls of `String.reverse` on the empty text, or on what `String.reverse` returns. -/
def reverse : CallCheck := fun lib ctx call =>
  match onEmptyString lib ctx call 0 emptyText with
  | some finding => some finding
  | none =>
    ((call.arg? 0).bind (ctx.argOfCall? · Core.string "reverse")).map fun inner =>
      lib.keepArg ctx call "Unnecessary double reversal" inner

/-- Calls of `String.fromList` on a known list of at most one character. -/
def fromList : CallCheck := fun lib ctx call =>
  match (call.arg? 0).bind Expr.list? with
  | some [] =>
    some (lib.replaceCall ctx call s!"Calling String.fromList [] will result in {emptyText}"
      emptyText true)
  | some [only] =>
    some (lib.replaceCall ctx call
      "Calling String.fromList with a single character is the same as String.fromChar"
      (lib.qualify ctx "fromChar" ++ " " ++ ctx.argText only.stripParens) false)
  | _ => none

/-- Of two texts, the one that is left when the other one is empty. -/
def besideEmpty? (first second : Expr) : Option Expr :=
  if first.isEmptyString then some second
  else if second.isEmptyString then some first
  else none

/-- Calls of `String.append` with the empty text. -/
def append : CallCheck := fun lib ctx call =>
  match call.arg? 0, call.arg? 1 with
  | some first, some second =>
    (besideEmpty? first second).map fun kept =>
      lib.keepArg ctx call s!"Appending {emptyText} doesn't have any effect" kept
  | _, _ => none

/-- The checks of the functions of `String`. -/
def family : Family where
  library := ⟨.string, Core.string⟩
  checks :=
    [("isEmpty", isEmpty), ("concat", concat), ("join", join), ("length", length),
     ("repeat", replicate), ("words", split), ("lines", split), ("reverse", reverse),
     ("fromList", fromList), ("append", append)]

/-- Uses of `++` with an empty text. -/
def checkAppendOperator (ctx : Context) (whole : Range) (left right : Expr) : Option Finding :=
  (besideEmpty? left right).map fun kept =>
    .fixing .string s!"Concatenating with {emptyText} doesn't have any effect"
      ["You should remove the concatenation with the empty string."] whole
      (ctx.keepOnly whole kept.stripParens)

/-- Calls of the functions of `String`, and `++` on texts. -/
def check (ctx : Context) (e : Expr) : Option Finding :=
  match e with
  | .binary whole symbol left right =>
    if symbol == "++" then checkAppendOperator ctx whole left right else family.check ctx e
  | _ => family.check ctx e

/-- Texts. -/
def rule : Rule := ⟨.string, [.app, .binary], check⟩

end Terse.Rule.Strings
