import Terse.Rule.Family

/-!
# Lists

Calls of the functions of `List`, and the operators `++` and `::` on lists.
-/

namespace Terse.Rule.Lists

/-- What a function makes of an empty list. -/
def emptyListMessage (lib : Library) (call : Call) (result : String) : String :=
  s!"Using {lib.displayCall call} on an empty list will result in {result}"

/-- Replace a call on an empty list by its result. -/
def replaceOnEmpty (lib : Library) (ctx : Context) (call : Call) (result : String) : Finding :=
  lib.replaceCall ctx call (emptyListMessage lib call result) result true

/-- A call whose argument with this index is the empty list and whose result is then empty. -/
def emptyStaysEmpty (lib : Library) (ctx : Context) (call : Call) (index : Nat) : Option Finding :=
  match call.arg? index with
  | some l => if l.isEmptyList then some (replaceOnEmpty lib ctx call "[]") else none
  | none => none

/-- The expression is a function that makes a list of its argument alone. -/
def isSingletonFunction (ctx : Context) (e : Expr) : Bool :=
  ctx.isReference e Core.list "singleton" ||
    match e.stripParens with
    | .lambda _ [param] body =>
      match body.list? with
      | some [element] => Context.returnsParam param element
      | _ => false
    | _ => false

/-! ## Mapping and filtering -/

/-- Calls of `List.map` with the identity, or on the empty list. -/
def map : CallCheck := fun lib ctx call =>
  match call.arg? 0 with
  | none => none
  | some function =>
    if ctx.isIdentity function then
      some (lib.keepArgOrIdentity ctx call
        "Using List.map with an identity function is the same as not using List.map" 1)
    else emptyStaysEmpty lib ctx call 1

/-- Calls of `List.indexedMap` on the empty list. -/
def indexedMap : CallCheck := fun lib ctx call => emptyStaysEmpty lib ctx call 1

/-- Calls of `List.filter` with a test that always has the same result, or on the empty list. -/
def filter : CallCheck := fun lib ctx call =>
  match call.arg? 0 with
  | none => none
  | some predicate =>
    if ctx.isAlwaysBool predicate true then
      some (lib.keepArgOrIdentity ctx call
        "Using List.filter with a function that will always return True is the same as not using List.filter"
        1)
    else if ctx.isAlwaysBool predicate false then
      some (lib.valueOrAlways ctx call
        "Using List.filter with a function that will always return False will result in []" 1 "[]"
        true)
    else emptyStaysEmpty lib ctx call 1

/-- The function always returns `Nothing`. -/
def alwaysNothing (ctx : Context) (function : Expr) : Bool :=
  match ctx.constant? function with
  | some c => ctx.isReference c Core.maybe "Nothing"
  | none => false

/-- Calls of `List.filterMap` with `Just`, with a function that always returns `Nothing`, or on the
empty list. -/
def filterMap : CallCheck := fun lib ctx call =>
  match call.arg? 0 with
  | none => none
  | some function =>
    if ctx.isReference function Core.maybe "Just" then
      some (lib.keepArgOrIdentity ctx call
        "Using List.filterMap with `Just` is the same as not using List.filterMap" 1)
    else if alwaysNothing ctx function then
      some (lib.valueOrAlways ctx call
        "Using List.filterMap with a function that will always return Nothing will result in []" 1
        "[]" true)
    else emptyStaysEmpty lib ctx call 1

/-! ## Concatenation -/

/-- The runs of two or more neighbouring lists among elements. `run` holds the lists just before,
the last one first. -/
def listRuns (run : List Expr) : List Expr → List (List Expr)
  | [] => if 2 ≤ run.length then [run.reverse] else []
  | e :: es =>
    if e.list?.isSome then listRuns (e :: run) es
    else (if 2 ≤ run.length then [run.reverse] else []) ++ listRuns [] es

/-- Concatenate two elements or more. -/
def concatMany (lib : Library) (ctx : Context) (call : Call) (first last : Expr)
    (elements : List Expr) : Option Finding :=
  if elements.all (·.list?.isSome) then
    some (.fixing lib.code "Expression could be simplified to be a single List"
      ["Try moving all the elements into a single list."] call.fnRange
      (.remove ⟨call.range.start, first.range.start⟩ ::
        .remove ⟨last.range.stop, call.range.stop⟩ :: ctx.mergeLists elements))
  else
    let edits := (listRuns [] elements).flatMap ctx.mergeLists
    if edits.isEmpty then none
    else
      some (.fixing lib.code "Consecutive literal lists should be merged"
        ["Try moving all the elements from consecutive list literals so that they form a single list."]
        call.fnRange edits)

/-- Calls of `List.concat` on a list that is known: without elements, with one, or with neighbouring
lists among its elements. -/
def concat : CallCheck := fun lib ctx call =>
  match (call.arg? 0).bind Expr.list? with
  | none => none
  | some [] => some (replaceOnEmpty lib ctx call "[]")
  | some [only] =>
    some (lib.keepArg ctx call "Unnecessary use of List.concat on a list with 1 element" only)
  | some (first :: second :: rest) =>
    concatMany lib ctx call first (rest.getLastD second) (first :: second :: rest)

/-- Calls of `List.concatMap` with the identity, with a function that makes a list of its argument
alone, or on the empty list. -/
def concatMap : CallCheck := fun lib ctx call =>
  match call.arg? 0 with
  | none => none
  | some function =>
    if ctx.isIdentity function && call.argIsAdjacent 0 then
      some (lib.finding call
        "Using List.concatMap with an identity function is the same as using List.concat"
        [.replace ⟨call.fnRange.start, function.range.stop⟩ (lib.qualify ctx "concat")])
    else if isSingletonFunction ctx function then
      some (lib.keepArgOrIdentity ctx call
        "Using List.concatMap with a function that returns a singleton list is the same as not using List.concatMap"
        1)
    else emptyStaysEmpty lib ctx call 1

/-- Calls of `List.append` with an empty list, or with two known ones. -/
def append : CallCheck := fun lib ctx call =>
  match call.arg? 0, call.arg? 1 with
  | some first, some second =>
    if first.isEmptyList then
      some (lib.keepArg ctx call "Appending [] doesn't have any effect" second)
    else if second.isEmptyList then
      some (lib.keepArg ctx call "Appending [] doesn't have any effect" first)
    else match first.list?, second.list? with
      | some xs, some ys =>
        some (lib.replaceCall ctx call
          "Appending literal lists could be simplified to be a single List"
          (Context.listText (ctx.texts (xs ++ ys))) true)
      | _, _ => none
  | _, _ => none

/-! ## Questions about a list -/

/-- Calls of `List.isEmpty` on a known list. -/
def isEmpty : CallCheck := fun lib ctx call =>
  match (call.arg? 0).bind Expr.list? with
  | none => none
  | some elements =>
    let text := ctx.boolText elements.isEmpty
    some (lib.replaceCall ctx call s!"The call to List.isEmpty will result in {text}" text true)

/-- A test of all elements: it has the same result for no elements as for a test that always has
that result. -/
def quantifier (onEmpty : Bool) : CallCheck := fun lib ctx call =>
  let text := ctx.boolText onEmpty
  let message := s!"The call to {lib.displayCall call} will result in {text}"
  match call.arg? 0 with
  | none => none
  | some predicate =>
    if ctx.isAlwaysBool predicate onEmpty then
      some (lib.valueOrAlways ctx call message 1 text true)
    else match call.arg? 1 with
      | some l => if l.isEmptyList then some (lib.replaceCall ctx call message text true) else none
      | none => none

/-- Calls of `List.all`. -/
def all : CallCheck := quantifier true

/-- Calls of `List.any`. -/
def any : CallCheck := quantifier false

/-- Calls of `List.member` on the empty list, or on a known one that holds the value. -/
def member : CallCheck := fun lib ctx call =>
  match call.arg? 0, (call.arg? 1).bind Expr.list? with
  | some _, some [] => some (replaceOnEmpty lib ctx call (ctx.boolText false))
  | some needle, some elements =>
    if elements.any (ctx.areEqual · needle) then
      some (lib.replaceCall ctx call
        "The list contains the element, so List.member will result in True" (ctx.boolText true)
        true)
    else none
  | _, _ => none

/-- Calls of `List.length` on a known list. -/
def length : CallCheck := fun lib ctx call =>
  match (call.arg? 0).bind Expr.list? with
  | none => none
  | some elements =>
    some (lib.replaceCall ctx call s!"The length of the list is {elements.length}"
      (toString elements.length) true)

/-! ## Numbers of elements -/

/-- Calls of `List.range` from a number to a smaller one. -/
def range : CallCheck := fun lib ctx call =>
  match (call.arg? 0).bind Expr.int?, (call.arg? 1).bind Expr.int? with
  | some low, some high =>
    if low ≤ high then none
    else some (lib.replaceCall ctx call "The call to List.range will result in []" "[]" true)
  | _, _ => none

/-- The argument with this index is an integer that is not positive. -/
def isNotPositive (call : Call) (index : Nat) : Bool :=
  match (call.arg? index).bind Expr.int? with
  | some n => n ≤ 0
  | none => false

/-- Calls of `List.repeat`. -/
def replicate : CallCheck := fun lib ctx call =>
  if isNotPositive call 0 then
    some (lib.valueOrAlways ctx call "List.repeat will result in an empty list" 1 "[]" true)
  else none

/-- Calls of `List.take` with no elements to take, or on the empty list. -/
def take : CallCheck := fun lib ctx call =>
  if isNotPositive call 0 then
    some (lib.valueOrAlways ctx call "Taking 0 items from a list will result in []" 1 "[]" true)
  else emptyStaysEmpty lib ctx call 1

/-- Calls of `List.drop` with no elements to drop, or on the empty list. -/
def drop : CallCheck := fun lib ctx call =>
  if isNotPositive call 0 then
    some (lib.keepArgOrIdentity ctx call
      "Dropping 0 items from a list will result in the list itself" 1)
  else emptyStaysEmpty lib ctx call 1

/-! ## Other results -/

/-- Calls of `List.reverse` on a list of at most one element, or on what `List.reverse` returns. -/
def reverse : CallCheck := fun lib ctx call =>
  match call.arg? 0 with
  | none => none
  | some argument =>
    match argument.list? with
    | some [] => some (replaceOnEmpty lib ctx call "[]")
    | some [_] =>
      some (lib.keepArg ctx call
        "Using List.reverse on a list with a single element will result in the list itself"
        argument)
    | some _ => none
    | none =>
      (ctx.argOfCall? argument Core.list "reverse").map fun inner =>
        lib.keepArg ctx call "Unnecessary double reversal" inner

/-- Calls of `List.foldl` and `List.foldr`. -/
def fold : CallCheck := fun lib ctx call =>
  match call.arg? 1, call.arg? 2 with
  | some initial, some l =>
    if l.isEmptyList then
      some (lib.keepArg ctx call
        s!"The call to {lib.displayCall call} will result in the initial accumulator" initial)
    else none
  | _, _ => none

/-- Calls of `List.partition` on the empty list, or with a test that always has the same result. -/
def partition : CallCheck := fun lib ctx call =>
  match call.arg? 0, call.arg? 1 with
  | some predicate, some l =>
    let elements := ctx.text l.stripParens.range
    if l.isEmptyList then some (replaceOnEmpty lib ctx call "( [], [] )")
    else if ctx.isAlwaysBool predicate true then
      some (lib.replaceCall ctx call "All elements will go to the first list"
        ("( " ++ elements ++ ", [] )") true)
    else if ctx.isAlwaysBool predicate false then
      some (lib.replaceCall ctx call "All elements will go to the second list"
        ("( [], " ++ elements ++ " )") true)
    else none
  | _, _ => none

/-- The text of `Just` a value. -/
def justText (ctx : Context) (value : String) : String := ctx.qualify Core.maybe "Just" ++ " " ++ value

/-- Replace a call on an empty list by `Nothing`. -/
def nothingOnEmpty (lib : Library) (ctx : Context) (call : Call) : Finding :=
  replaceOnEmpty lib ctx call (ctx.qualify Core.maybe "Nothing")

/-- Calls of `List.head` on a known list. -/
def head : CallCheck := fun lib ctx call =>
  match (call.arg? 0).bind Expr.list? with
  | none => none
  | some [] => some (nothingOnEmpty lib ctx call)
  | some (first :: _) =>
    some (lib.replaceCall ctx call
      "Using List.head on a list with a first element will result in Just the first element"
      (justText ctx (ctx.argText first.stripParens)) false)

/-- Calls of `List.tail` on a known list. -/
def tail : CallCheck := fun lib ctx call =>
  match (call.arg? 0).bind Expr.list? with
  | none => none
  | some [] => some (nothingOnEmpty lib ctx call)
  | some (_ :: rest) =>
    some (lib.replaceCall ctx call
      "Using List.tail on a list with some elements will result in Just the elements after the first"
      (justText ctx (Context.listText (ctx.texts rest))) false)

/-- Calls of `List.minimum` and `List.maximum`. -/
def extremum : CallCheck := fun lib ctx call =>
  match (call.arg? 0).bind Expr.list? with
  | some [] => some (nothingOnEmpty lib ctx call)
  | some [only] =>
    some (lib.replaceCall ctx call
      s!"Using {lib.displayCall call} on a list with a single element will result in Just that element"
      (justText ctx (ctx.argText only.stripParens)) false)
  | _ => none

/-- Calls of `List.sum` and `List.product`: no elements give the neutral number. -/
def aggregate (neutral : String) : CallCheck := fun lib ctx call =>
  match (call.arg? 0).bind Expr.list? with
  | some [] => some (replaceOnEmpty lib ctx call neutral)
  | some [only] =>
    some (lib.keepArg ctx call
      s!"Using {lib.displayCall call} on a list with a single element will result in that element"
      only)
  | _ => none

/-- Calls of `List.singleton`, which stand for a list of one element. -/
def singleton : CallCheck := fun lib ctx call =>
  (call.arg? 0).map fun value =>
    lib.replaceCall ctx call "Use a list literal instead of List.singleton"
      ("[ " ++ ctx.text value.stripParens.range ++ " ]") true

/-- The checks of the functions of `List`. -/
def family : Family where
  library := ⟨.list, Core.list⟩
  checks :=
    [("map", map), ("filter", filter), ("filterMap", filterMap), ("concat", concat),
     ("concatMap", concatMap), ("indexedMap", indexedMap), ("isEmpty", isEmpty), ("all", all),
     ("any", any), ("range", range), ("length", length), ("repeat", replicate),
     ("reverse", reverse), ("foldl", fold), ("foldr", fold), ("partition", partition),
     ("head", head), ("tail", tail), ("minimum", extremum), ("maximum", extremum),
     ("member", member), ("sum", aggregate "0"), ("product", aggregate "1"), ("take", take),
     ("drop", drop), ("append", append), ("singleton", singleton)]

/-! ## Operators -/

/-- Uses of `++` with an empty list, with two lists, or with a list of a single element before
another. -/
def checkConcatOperator (ctx : Context) (whole : Range) (left right : Expr) : Option Finding :=
  let finding (message : String) (edits : List Edit) : Option Finding :=
    some (.fixing .list message [] whole edits)
  if left.isEmptyList then
    finding "Concatenating with a single list doesn't have any effect"
      (ctx.keepOnly whole right.stripParens)
  else if right.isEmptyList then
    finding "Concatenating with a single list doesn't have any effect"
      (ctx.keepOnly whole left.stripParens)
  else match left.list?, right.list? with
    | some _, some _ =>
      finding "Expression could be simplified to be a single List" (ctx.mergeLists [left, right])
    | some [element], none =>
      let inner := element.stripParens
      let text := match inner with
        | .app _ _ _ => ctx.text inner.range
        | _ => ctx.argText inner
      finding "Should use (::) instead of (++)"
        [.replace ⟨left.range.start, right.range.start⟩ (text ++ " :: ")]
    | _, _ => none

/-- Uses of `::` before a list. -/
def checkConsOperator (ctx : Context) (whole : Range) (left right : Expr) : Option Finding :=
  right.list?.map fun elements =>
    .fixing .list
      "Element added to the beginning of the list could be included in the list" [] whole
      [.replace whole (Context.listText (ctx.texts (left.stripParens :: elements)))]

/-- Calls of the functions of `List`, and operators on lists. -/
def check (ctx : Context) (e : Expr) : Option Finding :=
  match e with
  | .binary whole symbol left right =>
    if symbol == "++" then checkConcatOperator ctx whole left right
    else if symbol == "::" then checkConsOperator ctx whole left right
    else family.check ctx e
  | _ => family.check ctx e

/-- Lists. -/
def rule : Rule := ⟨.list, [.app, .binary], check⟩

end Terse.Rule.Lists
