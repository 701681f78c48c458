import Terse.Rule.Family

/-!
# Wrapped values

Calls of the functions of `Maybe` and `Result` on values whose constructor is known.
-/

namespace Terse.Rule.Wrapped

/-- How a function treats the two constructors of a type: it works on what one of them holds, and
passes values of the other one through. -/
structure Shape where
  worked : String
  passed : String
deriving DecidableEq, Repr, Inhabited

/-- Functions that work on what `Just` holds. -/
def justShape : Shape := ⟨"Just", "Nothing"⟩

/-- Functions that work on what `Ok` holds. -/
def okShape : Shape := ⟨"Ok", "Err"⟩

/-- Functions that work on what `Err` holds. -/
def errShape : Shape := ⟨"Err", "Ok"⟩

/-- What a constructor of the module is applied to in an expression. -/
def payload? (lib : Library) (ctx : Context) (e : Expr) (constructor : String) : Option Expr :=
  ctx.argOfCall? e lib.path constructor

/-- The expression is made with a constructor of the module, applied or not. -/
def isMadeWith (lib : Library) (ctx : Context) (e : Expr) (constructor : String) : Bool :=
  lib.isReference ctx e constructor || (payload? lib ctx e constructor).isSome

/-- The text of a function applied to one more argument. -/
def appliedText (ctx : Context) (function payload : Expr) : String :=
  let fn := function.stripParens
  let head := match fn with
    | .app _ _ _ => ctx.text fn.range
    | _ => ctx.argText fn
  head ++ " " ++ ctx.argText payload.stripParens

/-- Keep a value that is passed through. -/
def passThrough (lib : Library) (ctx : Context) (call : Call) (shape : Shape) (value : Expr) :
    Finding :=
  lib.keepArg ctx call
    s!"Using {lib.displayCall call} on {shape.passed} will result in {shape.passed}" value

/-- What a call on a value with a known constructor is reported as. -/
def knownMessage (lib : Library) (call : Call) (shape : Shape) : String :=
  s!"Calling {lib.displayCall call} on a value that is known to be {shape.worked}"

/-- Functions that apply a function inside a value. -/
def mapLike (shape : Shape) : CallCheck := fun lib ctx call =>
  let name := lib.displayCall call
  match call.arg? 0 with
  | none => none
  | some function =>
    if ctx.isIdentity function then
      some (lib.keepArgOrIdentity ctx call
        s!"Using {name} with an identity function is the same as not using {name}" 1)
    else match call.arg? 1 with
      | none => none
      | some value =>
        if isMadeWith lib ctx value shape.passed then some (passThrough lib ctx call shape value)
        else (payload? lib ctx value shape.worked).map fun payload =>
          lib.replaceCall ctx call (knownMessage lib call shape)
            (lib.qualify ctx shape.worked ++ " " ++
              Context.parenthesized (appliedText ctx function payload)) false

/-- Functions that continue with what a value holds. -/
def andThenLike (shape : Shape) : CallCheck := fun lib ctx call =>
  let name := lib.displayCall call
  match call.arg? 0 with
  | none => none
  | some function =>
    if lib.isReference ctx function shape.worked then
      some (lib.keepArgOrIdentity ctx call
        s!"Using {name} with a function that will always return {shape.worked} is the same as not using {name}"
        1)
    else match call.arg? 1 with
      | none => none
      | some value =>
        if isMadeWith lib ctx value shape.passed then some (passThrough lib ctx call shape value)
        else (payload? lib ctx value shape.worked).map fun payload =>
          lib.replaceCall ctx call (knownMessage lib call shape) (appliedText ctx function payload)
            false

/-- Functions that take what a value holds, or a default. -/
def withDefaultLike (shape : Shape) : CallCheck := fun lib ctx call =>
  let name := lib.displayCall call
  match call.arg? 0, call.arg? 1 with
  | some fallback, some value =>
    match payload? lib ctx value shape.worked with
    | some payload =>
      some (lib.keepArg ctx call
        s!"Using {name} on a value that is {shape.worked} will result in that value" payload)
    | none =>
      if isMadeWith lib ctx value shape.passed then
        some (lib.keepArg ctx call
          s!"Using {name} on {shape.passed} will result in the default value" fallback)
      else none
  | _, _ => none

/-- Calls of `Result.toMaybe`. -/
def toMaybe : CallCheck := fun lib ctx call =>
  match call.arg? 0 with
  | none => none
  | some value =>
    match payload? lib ctx value "Ok" with
    | some payload =>
      some (lib.replaceCall ctx call
        "Using Result.toMaybe on a value that is Ok will result in Just that value"
        (ctx.qualify Core.maybe "Just" ++ " " ++ ctx.argText payload.stripParens) false)
    | none =>
      if isMadeWith lib ctx value "Err" then
        some (lib.replaceCall ctx call "Using Result.toMaybe on an error will result in Nothing"
          (ctx.qualify Core.maybe "Nothing") true)
      else none

/-- The checks of the functions of `Maybe`. -/
def maybeFamily : Family where
  library := ⟨.maybe, Core.maybe⟩
  checks :=
    [("map", mapLike justShape), ("andThen", andThenLike justShape),
     ("withDefault", withDefaultLike justShape)]

/-- The checks of the functions of `Result`. -/
def resultFamily : Family where
  library := ⟨.result, Core.result⟩
  checks :=
    [("map", mapLike okShape), ("mapError", mapLike errShape), ("andThen", andThenLike okShape),
     ("withDefault", withDefaultLike okShape), ("toMaybe", toMaybe)]

end Terse.Rule.Wrapped
