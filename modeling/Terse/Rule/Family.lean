import Terse.Rule.Basic

/-!
# Families of calls

Rules about the functions of one library module, as a table from the name of a function to the
check of its calls. A call is checked however it is written.
-/

namespace Terse

/-- The library module that a family is about. -/
structure Library where
  code : RuleCode
  path : ModuleName
deriving DecidableEq, Repr, Inhabited

/-- The check of the calls of one function of a library module. -/
abbrev CallCheck := Library → Context → Call → Option Finding

/-- A family of checks for the functions of one library module. -/
structure Family where
  library : Library
  checks : List (String × CallCheck)

namespace Library

/-- The last segment of the module's name, which messages call it by. -/
def shortName (lib : Library) : String := lib.path.segments.getLastD ""

/-- How messages call a value of the module. -/
def display (lib : Library) (name : String) : String := lib.shortName ++ "." ++ name

/-- How messages call the function of a call. -/
def displayCall (lib : Library) (call : Call) : String := lib.display call.function.name

/-- How a value of the module is written here. -/
def qualify (lib : Library) (ctx : Context) (name : String) : String := ctx.qualify lib.path name

/-- The expression is a reference to this value of the module. -/
def isReference (lib : Library) (ctx : Context) (e : Expr) (name : String) : Bool :=
  ctx.isReference e lib.path name

/-- A finding at the name of the function. -/
def finding (lib : Library) (call : Call) (message : String) (edits : List Edit) : Finding :=
  .fixing lib.code message [] call.fnRange edits

/-- Replace the whole call by a text. -/
def replaceCall (lib : Library) (ctx : Context) (call : Call) (message text : String)
    (atomic : Bool) : Finding :=
  lib.finding call message [ctx.replaceBy call.range text atomic]

/-- Replace the whole call by a part of it. -/
def keepArg (lib : Library) (ctx : Context) (call : Call) (message : String) (kept : Expr) :
    Finding :=
  lib.finding call message (ctx.keepOnly call.range kept.stripParens)

/-- Replace a call that lacks its last argument by the identity. -/
def replaceByIdentity (lib : Library) (ctx : Context) (call : Call) (message : String) : Finding :=
  lib.replaceCall ctx call message (ctx.qualify Core.basics "identity") true

/-- Replace a call that lacks its last argument by a function that always returns a value. -/
def replaceByAlways (lib : Library) (ctx : Context) (call : Call) (message value : String) :
    Finding :=
  lib.replaceCall ctx call message (ctx.qualify Core.basics "always" ++ " " ++ value) false

/-- Replace the call by its argument with an index, or by the identity if it has none. -/
def keepArgOrIdentity (lib : Library) (ctx : Context) (call : Call) (message : String)
    (index : Nat) : Finding :=
  match call.arg? index with
  | some kept => lib.keepArg ctx call message kept
  | none => lib.replaceByIdentity ctx call message

/-- Replace the call by a value, or by a function that always returns it if the call has no
argument with this index. -/
def valueOrAlways (lib : Library) (ctx : Context) (call : Call) (message : String) (index : Nat)
    (value : String) (atomic : Bool) : Finding :=
  if index < call.args.length then lib.replaceCall ctx call message value atomic
  else lib.replaceByAlways ctx call message value

end Library

namespace Family

/-- Check a call with the check of its function. -/
def checkCall (family : Family) (ctx : Context) (call : Call) : Option Finding :=
  if call.function.path = family.library.path then
    match family.checks.lookup call.function.name with
    | some check => check family.library ctx call
    | none => none
  else none

/-- Check an expression that is a call. -/
def check (family : Family) (ctx : Context) (e : Expr) : Option Finding :=
  (Call.ofExpr? ctx e).bind (family.checkCall ctx)

/-- The rule that checks all calls of a family. -/
def rule (family : Family) : Rule := ⟨family.library.code, [.app, .binary], family.check⟩

end Family

namespace Context

/-- The texts of expressions. -/
def texts (ctx : Context) (es : List Expr) : List String := es.map fun e => ctx.text e.range

/-- The text of a list with these elements. -/
def listText (elements : List String) : String :=
  if elements.isEmpty then "[]" else "[ " ++ ", ".intercalate elements ++ " ]"

/-- The text of a boolean here. -/
def boolText (ctx : Context) (b : Bool) : String := ctx.qualify Core.basics (boolName b)

/-- A list that stands without parentheses and has an element. -/
def isPlainList : Expr → Bool
  | .list _ (_ :: _) => true
  | _ => false

/-- The edits that join each list with the next one: what stands between the last element of one
and the first element of the other becomes a comma. -/
def joinLists : List Expr → List Edit
  | a :: b :: rest =>
    let edit : List Edit := match a.list?.bind List.getLast?, b.list?.bind List.head? with
      | some last, some first => [.replace ⟨last.range.stop, first.range.start⟩ ", "]
      | _, _ => []
    edit ++ joinLists (b :: rest)
  | _ => []

/-- The edits that make one list of neighbouring lists. If one of them is empty or stands in
parentheses, the whole span is written anew. -/
def mergeLists (ctx : Context) (lists : List Expr) : List Edit :=
  match lists.head?, lists.getLast? with
  | some first, some last =>
    if lists.all isPlainList then joinLists lists
    else
      let elements := lists.flatMap fun l => l.list?.getD []
      [.replace ⟨first.range.start, last.range.stop⟩ (listText (ctx.texts elements))]
  | _, _ => []

end Context

end Terse
