import Terse.Rule.Family

/-!
# Effects

Calls of the functions of `Cmd` and `Sub`: batching and mapping effects that do nothing.
-/

namespace Terse.Rule.Effect

/-- The expression is the effect of the module that does nothing. -/
def isNone (lib : Library) (ctx : Context) (e : Expr) : Bool := lib.isReference ctx e "none"

/-- How messages call the effect that does nothing. -/
def noneName (lib : Library) : String := lib.display "none"

/-- Take the effects that do nothing out of two effects or more. -/
def dropNone (lib : Library) (ctx : Context) (call : Call) (elements : List Expr) :
    Option Finding :=
  let message := s!"Unnecessary {noneName lib}"
  match elements.find? (isNone lib ctx) with
  | none => none
  | some first =>
    if elements.all (isNone lib ctx) then
      some (lib.replaceCall ctx call message (lib.qualify ctx "none") true)
    else
      some (.fixing lib.code message
        [s!"{noneName lib} will be ignored by {lib.displayCall call}."] first.range
        (removeItems (elements.map fun e => (e.range, isNone lib ctx e))))

/-- A batch of a known list: without effects, with one, or with effects that do nothing. -/
def batch : CallCheck := fun lib ctx call =>
  match (call.arg? 0).bind Expr.list? with
  | none => none
  | some [] =>
    some (lib.replaceCall ctx call s!"Replace by {noneName lib}" (lib.qualify ctx "none") true)
  | some [only] => some (lib.keepArg ctx call s!"Unnecessary {lib.displayCall call}" only)
  | some elements => dropNone lib ctx call elements

/-- A map with the identity, or of the effect that does nothing. -/
def map : CallCheck := fun lib ctx call =>
  let name := lib.displayCall call
  match call.arg? 0 with
  | none => none
  | some function =>
    if ctx.isIdentity function then
      some (lib.keepArgOrIdentity ctx call
        s!"Using {name} with an identity function is the same as not using {name}" 1)
    else match call.arg? 1 with
      | some effect =>
        if isNone lib ctx effect then
          some (lib.replaceCall ctx call
            s!"Using {name} on {noneName lib} will result in {noneName lib}"
            (lib.qualify ctx "none") true)
        else none
      | none => none

/-- The checks of the functions of `Cmd`. -/
def cmdFamily : Family := ⟨⟨.cmd, Core.cmd⟩, [("batch", batch), ("map", map)]⟩

/-- The checks of the functions of `Sub`. -/
def subFamily : Family := ⟨⟨.sub, Core.sub⟩, [("batch", batch), ("map", map)]⟩

end Terse.Rule.Effect
