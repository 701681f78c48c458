import Terse.Proofs.View.Shape
import Terse.View.Call
import Terse.View.Function

/-!
# Views without places

What an expression is known to be depends only on what is left of it without places and parentheses:
every view of expressions commutes with erasure.
-/

namespace Terse

namespace Expr

/-! ## Known values -/

/-- Minus signs make a number, and parentheses between them do not matter. -/
theorem number?_erase (e : Expr) : e.erase.number? = e.number? := by
  cases e with
  | paren _ inner =>
    rw [erase, number?]
    exact number?_erase inner
  | negate _ inner => rw [erase, number?, number?, number?_erase inner]
  | _ => simp [number?]

/-- The same integer is read off an expression without its parentheses. -/
@[simp] theorem int?_erase (e : Expr) : e.erase.int? = e.int? := by
  cases e with
  | paren _ inner =>
    rw [erase, int?]
    exact int?_erase inner
  | negate _ inner => rw [erase, int?, int?, int?_erase inner]
  | _ => simp [int?]

/-- A literal is found inside any parentheses. -/
@[simp] theorem literal?_erase (e : Expr) : e.erase.literal? = e.literal? := by
  unfold literal?
  rw [stripParens_erase, ← erase_stripParens]
  cases he : e.stripParens with
  | paren r inner => exact absurd he (e.stripParens_ne_paren r inner)
  | _ => simp only [erase]

/-- A text is found inside any parentheses. -/
@[simp] theorem string?_erase (e : Expr) : e.erase.string? = e.string? := by
  simp only [string?, literal?_erase]

@[simp] theorem isEmptyString_erase (e : Expr) : e.erase.isEmptyString = e.isEmptyString := by
  simp only [isEmptyString, string?_erase]

/-- The elements of a list that is written out are erased one by one. -/
@[simp] theorem list?_erase (e : Expr) : e.erase.list? = e.list?.map (List.map erase) := by
  unfold list?
  rw [stripParens_erase, ← erase_stripParens]
  cases he : e.stripParens with
  | paren r inner => exact absurd he (e.stripParens_ne_paren r inner)
  | list _ items => simp only [erase, eraseAll_eq_map, Option.map_some]
  | _ => simp only [erase, Option.map_none]

/-- An empty list is seen through parentheses. -/
@[simp] theorem isEmptyList_erase (e : Expr) : e.erase.isEmptyList = e.isEmptyList := by
  unfold isEmptyList
  rw [list?_erase]
  rcases e.list? with _ | _ | _ <;> rfl

end Expr

/-! ## Names and functions -/

namespace Context

variable (ctx : Context)

/-- What a name means does not depend on where it stands. -/
@[simp] theorem resolveExpr_erase (e : Expr) : ctx.resolveExpr e.erase = ctx.resolveExpr e := by
  unfold resolveExpr
  rw [e.stripParens_erase, ← e.erase_stripParens]
  cases he : e.stripParens with
  | paren r inner => exact absurd he (e.stripParens_ne_paren r inner)
  | _ => simp only [Expr.erase]

/-- A reference to a value stays a reference to it. -/
@[simp] theorem isReference_erase (e : Expr) (path : ModuleName) (name : String) :
    ctx.isReference e.erase path name = ctx.isReference e path name := by
  rw [isReference, isReference, resolveExpr_erase]

/-- A boolean is recognized by what its name means, so parentheses around it do not matter. -/
@[simp] theorem bool?_erase (e : Expr) : ctx.bool? e.erase = ctx.bool? e := by
  simp only [bool?, isReference_erase]

/-- A function that returns its parameter still does when both are without parentheses. -/
theorem returnsParam_erase (param : Pattern) (body : Expr) :
    returnsParam param.erase body.erase = returnsParam param body := by
  unfold returnsParam
  rw [param.stripParens_erase, ← param.erase_stripParens, body.stripParens_erase,
    ← body.erase_stripParens]
  cases hp : param.stripParens with
  | paren r inner => exact absurd hp (param.stripParens_ne_paren r inner)
  | var =>
    cases hb : body.stripParens with
    | paren r inner => exact absurd hb (body.stripParens_ne_paren r inner)
    | _ => simp only [Pattern.erase, Expr.erase]
  | _ => simp only [Pattern.erase]

/-- The identity is recognized in both forms, as a name and as a lambda. -/
@[simp] theorem isIdentity_erase (e : Expr) : ctx.isIdentity e.erase = ctx.isIdentity e := by
  unfold isIdentity
  rw [isReference_erase, e.stripParens_erase, ← e.erase_stripParens]
  cases he : e.stripParens with
  | paren r inner => exact absurd he (e.stripParens_ne_paren r inner)
  | lambda _ params body =>
    rcases params with _ | ⟨param, _ | ⟨next, more⟩⟩ <;>
      simp only [Expr.erase, Pattern.eraseAll, returnsParam_erase]
  | _ => simp only [Expr.erase]

/-- A function that ignores its argument gives the erased value. -/
@[simp] theorem constant?_erase (e : Expr) :
    ctx.constant? e.erase = (ctx.constant? e).map Expr.erase := by
  unfold constant?
  rw [e.stripParens_erase, ← e.erase_stripParens]
  cases he : e.stripParens with
  | paren r inner => exact absurd he (e.stripParens_ne_paren r inner)
  | app _ fn args =>
    rcases args with _ | ⟨value, _ | ⟨next, more⟩⟩ <;>
      simp only [Expr.erase, Expr.eraseAll, isReference_erase, Option.map_none]
    split <;> rfl
  | lambda _ params body =>
    rcases params with _ | ⟨param, _ | ⟨next, more⟩⟩ <;>
      simp only [Expr.erase, Pattern.eraseAll, Pattern.ignoresValue_erase, Option.map_none]
    split <;> rfl
  | _ => simp only [Expr.erase, Option.map_none]

@[simp] theorem isAlwaysBool_erase (e : Expr) (value : Bool) :
    ctx.isAlwaysBool e.erase value = ctx.isAlwaysBool e value := by
  unfold isAlwaysBool
  rw [constant?_erase]
  cases ctx.constant? e with
  | none => rfl
  | some c => simp only [Option.map_some, bool?_erase]

end Context

/-! ## Calls -/

namespace Call

/-- The call without its places, and without parentheses in its arguments. -/
def erase (call : Call) : Call :=
  { call with fnRange := default, args := call.args.map Expr.erase, range := default }

/-- More arguments can be given before or after erasing. -/
theorem extend_erase (call : Call) (more : List Expr) (form : CallForm) (range : Range) :
    call.erase.extend (more.map Expr.erase) form default =
      (call.extend more form range).map erase := by
  rcases call with ⟨function, fnRange, args, form', range'⟩
  cases form' <;> simp [extend, erase]

/-- A call is taken apart alike with and without parentheses: the arguments of all its parts are
erased one by one. -/
theorem within_erase (ctx : Context) (range : Range) (e : Expr) :
    within ctx default e.erase = (within ctx range e).map erase := by
  cases e with
  | paren _ inner =>
    rw [Expr.erase, within]
    exact within_erase ctx range inner
  | var r name =>
    rw [Expr.erase, within, within]
    cases ctx.resolve name <;> rfl
  | app _ fn args =>
    rw [Expr.erase, within, within, fn.range_erase, within_erase ctx fn.range fn,
      Expr.eraseAll_eq_map]
    cases within ctx fn.range fn with
    | none => rfl
    | some call => exact call.extend_erase args .direct range
  | binary _ symbol left right =>
    rw [Expr.erase, within, within, left.range_erase, right.range_erase,
      within_erase ctx left.range left, within_erase ctx right.range right]
    split
    · cases within ctx right.range right with
      | none => rfl
      | some call => exact call.extend_erase [left] .pipeRight range
    · split
      · cases within ctx left.range left with
        | none => rfl
        | some call => exact call.extend_erase [right] .pipeLeft range
      · rfl
  | _ => simp [within]

theorem ofExpr?_erase (ctx : Context) (e : Expr) :
    ofExpr? ctx e.erase = (ofExpr? ctx e).map erase := by
  rw [ofExpr?, ofExpr?, e.range_erase]
  exact within_erase ctx e.range e

end Call

namespace Context

variable (ctx : Context)

/-- The arguments of a call of a known function are erased one by one. -/
theorem argsOfCall?_erase (e : Expr) (path : ModuleName) (name : String) :
    ctx.argsOfCall? e.erase path name =
      (ctx.argsOfCall? e path name).map (List.map Expr.erase) := by
  unfold argsOfCall?
  rw [Call.ofExpr?_erase]
  cases Call.ofExpr? ctx e with
  | none => rfl
  | some call =>
    have hfunction : call.erase.isOf path name = call.isOf path name := rfl
    rw [Option.map_some]
    dsimp only
    rw [hfunction]
    by_cases hof : call.isOf path name = true
    · rw [if_pos hof, if_pos hof]
      rfl
    · rw [if_neg hof, if_neg hof]
      rfl

@[simp] theorem argOfCall?_erase (e : Expr) (path : ModuleName) (name : String) :
    ctx.argOfCall? e.erase path name = (ctx.argOfCall? e path name).map Expr.erase := by
  unfold argOfCall?
  rw [argsOfCall?_erase]
  rcases ctx.argsOfCall? e path name with _ | _ | ⟨arg, _ | ⟨next, more⟩⟩ <;> rfl

end Context

end Terse
