import Terse.Rule.Family

/-!
# Sets and dictionaries

Calls of the functions of `Set` and `Dict`, mostly on empty collections. Both modules share the
checks; the module that a check runs for decides which `empty` it looks for.
-/

namespace Terse.Rule.Collection

/-- The expression is the empty collection of the module. -/
def isEmptyCollection (lib : Library) (ctx : Context) (e : Expr) : Bool :=
  lib.isReference ctx e "empty"

/-- How messages call the empty collection. -/
def emptyName (lib : Library) : String := lib.display "empty"

/-- How the empty collection is written here. -/
def emptyText (lib : Library) (ctx : Context) : String := lib.qualify ctx "empty"

/-- A call whose argument with this index is the empty collection, with its result and what
messages call that. -/
def onEmpty (index : Nat) (result : Library → Context → String) (shown : Library → String) :
    CallCheck := fun lib ctx call =>
  match call.arg? index with
  | some c =>
    if isEmptyCollection lib ctx c then
      some (lib.replaceCall ctx call
        s!"Using {lib.displayCall call} on {emptyName lib} will result in {shown lib}"
        (result lib ctx) true)
    else none
  | none => none

/-- A call whose argument with this index is the empty collection, like its result. -/
def emptyStaysEmpty (index : Nat) : CallCheck := onEmpty index emptyText emptyName

/-- A call on the empty collection with a boolean result. -/
def onEmptyBool (index : Nat) (value : Bool) : CallCheck :=
  onEmpty index (fun _ ctx => ctx.boolText value) fun _ => boolName value

/-- A call on the empty collection whose result is written the same everywhere. -/
def onEmptyText (index : Nat) (text : String) : CallCheck :=
  onEmpty index (fun _ _ => text) fun _ => text

/-- The text of a pair of the same value. -/
def pairText (value : String) : String := "( " ++ value ++ ", " ++ value ++ " )"

/-- A partition of the empty collection. -/
def partition : CallCheck :=
  onEmpty 1 (fun lib ctx => pairText (emptyText lib ctx)) fun lib => pairText (emptyName lib)

/-- A call that makes a collection of an empty list. -/
def fromList : CallCheck := fun lib ctx call =>
  match call.arg? 0 with
  | some l =>
    if l.isEmptyList then
      some (lib.replaceCall ctx call
        s!"{lib.displayCall call} on [] will result in {emptyName lib}" (emptyText lib ctx) true)
    else none
  | none => none

/-- Calls of `Set.fromList` on a known list of at most one element. -/
def setFromList : CallCheck := fun lib ctx call =>
  match (call.arg? 0).bind Expr.list? with
  | some [only] =>
    some (lib.replaceCall ctx call
      "Set.fromList with a single element can be replaced using Set.singleton"
      (lib.qualify ctx "singleton" ++ " " ++ ctx.argText only.stripParens) false)
  | _ => fromList lib ctx call

/-- Calls of `Set.map` with the identity, or on the empty set. -/
def setMap : CallCheck := fun lib ctx call =>
  match call.arg? 0 with
  | none => none
  | some function =>
    if ctx.isIdentity function then
      some (lib.keepArgOrIdentity ctx call
        "Using Set.map with an identity function is the same as not using Set.map" 1)
    else emptyStaysEmpty 1 lib ctx call

/-- Calls of `Set.filter` with a test that always has the same result, or on the empty set. -/
def setFilter : CallCheck := fun lib ctx call =>
  match call.arg? 0 with
  | none => none
  | some predicate =>
    if ctx.isAlwaysBool predicate true then
      some (lib.keepArgOrIdentity ctx call
        "Using Set.filter with a function that will always return True is the same as not using Set.filter"
        1)
    else if ctx.isAlwaysBool predicate false then
      some (lib.valueOrAlways ctx call
        "Using Set.filter with a function that will always return False will result in Set.empty" 1
        (emptyText lib ctx) true)
    else emptyStaysEmpty 1 lib ctx call

/-- A union with the empty collection. -/
def union : CallCheck := fun lib ctx call =>
  match call.arg? 0, call.arg? 1 with
  | some first, some second =>
    let message := s!"Unnecessary union with {emptyName lib}"
    if isEmptyCollection lib ctx first then some (lib.keepArg ctx call message second)
    else if isEmptyCollection lib ctx second then some (lib.keepArg ctx call message first)
    else none
  | _, _ => none

/-- Calls of `Set.intersect` with the empty set. -/
def intersect : CallCheck := fun lib ctx call =>
  match call.arg? 0 with
  | none => none
  | some first =>
    if isEmptyCollection lib ctx first then emptyStaysEmpty 0 lib ctx call
    else emptyStaysEmpty 1 lib ctx call

/-- Calls of `Set.diff` with the empty set. -/
def diff : CallCheck := fun lib ctx call =>
  match call.arg? 0, call.arg? 1 with
  | some first, some second =>
    if isEmptyCollection lib ctx first then emptyStaysEmpty 0 lib ctx call
    else if isEmptyCollection lib ctx second then
      some (lib.keepArg ctx call
        s!"Diffing a set with {emptyName lib} will result in the set itself" first)
    else none
  | _, _ => none

/-- The checks of the functions of `Set`. -/
def setFamily : Family where
  library := ⟨.set, Core.set⟩
  checks :=
    [("map", setMap), ("filter", setFilter), ("isEmpty", onEmptyBool 0 true),
     ("member", onEmptyBool 1 false), ("fromList", setFromList), ("toList", onEmptyText 0 "[]"),
     ("size", onEmptyText 0 "0"), ("remove", emptyStaysEmpty 1), ("union", union),
     ("intersect", intersect), ("diff", diff), ("partition", partition)]

/-- The checks of the functions of `Dict`. -/
def dictFamily : Family where
  library := ⟨.dict, Core.dict⟩
  checks :=
    [("isEmpty", onEmptyBool 0 true), ("fromList", fromList), ("toList", onEmptyText 0 "[]"),
     ("keys", onEmptyText 0 "[]"), ("values", onEmptyText 0 "[]"), ("size", onEmptyText 0 "0"),
     ("member", onEmptyBool 1 false), ("filter", emptyStaysEmpty 1), ("map", emptyStaysEmpty 1),
     ("union", union), ("remove", emptyStaysEmpty 1), ("partition", partition)]

end Terse.Rule.Collection
