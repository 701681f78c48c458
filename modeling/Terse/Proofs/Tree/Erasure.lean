import Terse.Tree.Expr

/-!
# Trees without places

A pattern or an expression can be written at another place, and with other parentheses. Here is what
is left of it without them.
-/

namespace Terse

universe u

/-! ## Patterns -/

namespace Pattern

mutual

/-- The pattern without its places and parentheses. -/
def erase : Pattern → Pattern
  | wild _ => wild default
  | unit _ => unit default
  | var _ name => var default name
  | literal _ value => literal default value
  | ctor _ name args => ctor default name (eraseAll args)
  | tuple _ items => tuple default (eraseAll items)
  | list _ items => list default (eraseAll items)
  | cons _ head tail => cons default head.erase tail.erase
  | record _ fields => record default (fields.map fun f => ⟨f.value, default⟩)
  | named _ inner name => named default inner.erase ⟨name.value, default⟩
  | paren _ inner => inner.erase

/-- Patterns without their places and parentheses. -/
def eraseAll : List Pattern → List Pattern
  | [] => []
  | p :: ps => p.erase :: eraseAll ps

end

attribute [simp] erase eraseAll

/-- What is the same with one pair of parentheses and without is the same with all of them. -/
theorem apply_stripParens {α : Sort u} {f : Pattern → α}
    (h : ∀ r inner, f (paren r inner) = f inner) (p : Pattern) : f p.stripParens = f p := by
  cases p with
  | paren r inner =>
    rw [stripParens, h]
    exact apply_stripParens h inner
  | _ => rw [stripParens]; simp

theorem stripParens_ne_paren (p : Pattern) (r : Range) (inner : Pattern) :
    p.stripParens ≠ paren r inner := by
  cases p with
  | paren _ i =>
    rw [stripParens]
    exact stripParens_ne_paren i r inner
  | _ => simp [stripParens]

/-- Parentheses are erased. -/
theorem erase_stripParens (p : Pattern) : p.stripParens.erase = p.erase :=
  apply_stripParens (fun _ _ => by rw [erase]) p

theorem stripParens_erase (p : Pattern) : p.erase.stripParens = p.erase := by
  cases p with
  | paren _ inner =>
    rw [erase]
    exact stripParens_erase inner
  | _ => simp [stripParens]

end Pattern

/-! ## Expressions -/

namespace Expr

mutual

/-- The expression without its places and parentheses. -/
def erase : Expr → Expr
  | unit _ => unit default
  | literal _ value => literal default value
  | var _ name => var default name
  | operatorFn _ symbol => operatorFn default symbol
  | accessor _ field => accessor default field
  | app _ fn args => app default fn.erase (eraseAll args)
  | binary _ symbol left right => binary default symbol left.erase right.erase
  | negate _ inner => negate default inner.erase
  | paren _ inner => inner.erase
  | list _ items => list default (eraseAll items)
  | tuple _ items => tuple default (eraseAll items)
  | record _ setters => record default (eraseSetters setters)
  | update _ base setters => update default ⟨base.value, default⟩ (eraseSetters setters)
  | access _ owner field => access default owner.erase ⟨field.value, default⟩
  | cond _ condition thenBranch elseBranch =>
    cond default condition.erase thenBranch.erase elseBranch.erase
  | case _ scrutinee branches => case default scrutinee.erase (eraseBranches branches)
  | lambda _ params body => lambda default (Pattern.eraseAll params) body.erase

/-- Expressions without their places and parentheses. -/
def eraseAll : List Expr → List Expr
  | [] => []
  | e :: es => e.erase :: eraseAll es

/-- Setters without their places and parentheses. -/
def eraseSetters : List Setter → List Setter
  | [] => []
  | .mk field value :: ss => .mk ⟨field.value, default⟩ value.erase :: eraseSetters ss

/-- Branches without their places and parentheses. -/
def eraseBranches : List Branch → List Branch
  | [] => []
  | .mk pattern body :: bs => .mk pattern.erase body.erase :: eraseBranches bs

end

attribute [simp] erase eraseAll eraseSetters eraseBranches

theorem eraseAll_eq_map (es : List Expr) : eraseAll es = es.map erase := by
  induction es with
  | nil => rfl
  | cons e es ih => rw [eraseAll, List.map_cons, ih]

@[simp] theorem range_erase (e : Expr) : e.erase.range = default := by
  cases e with
  | paren _ inner =>
    rw [erase]
    exact range_erase inner
  | _ => simp [range]

/-- What is the same with one pair of parentheses and without is the same with all of them. -/
theorem apply_stripParens {α : Sort u} {f : Expr → α}
    (h : ∀ r inner, f (paren r inner) = f inner) (e : Expr) : f e.stripParens = f e := by
  cases e with
  | paren r inner =>
    rw [stripParens, h]
    exact apply_stripParens h inner
  | _ => rw [stripParens]; simp

theorem stripParens_ne_paren (e : Expr) (r : Range) (inner : Expr) :
    e.stripParens ≠ paren r inner := by
  cases e with
  | paren _ i =>
    rw [stripParens]
    exact stripParens_ne_paren i r inner
  | _ => simp [stripParens]

/-- Parentheses are erased. -/
theorem erase_stripParens (e : Expr) : e.stripParens.erase = e.erase :=
  apply_stripParens (fun _ _ => by rw [erase]) e

theorem stripParens_erase (e : Expr) : e.erase.stripParens = e.erase := by
  cases e with
  | paren _ inner =>
    rw [erase]
    exact stripParens_erase inner
  | _ => simp [stripParens]

end Expr

end Terse
