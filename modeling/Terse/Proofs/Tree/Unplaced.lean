import Terse.Tree.Expr

/-!
# Trees without their places

Two trees that were read from different places of a text can be compared without their ranges.
Parentheses stay: they are a part of the tree.
-/

namespace Terse

/-- The name without its place. -/
def Located.unplaced {α : Type} (l : Located α) : Located α := ⟨l.value, default⟩

namespace Pattern

mutual

/-- The pattern without its places. -/
def unplaced : Pattern → Pattern
  | wild _ => wild default
  | unit _ => unit default
  | var _ name => var default name
  | literal _ value => literal default value
  | ctor _ name args => ctor default name (unplacedAll args)
  | tuple _ items => tuple default (unplacedAll items)
  | list _ items => list default (unplacedAll items)
  | cons _ head tail => cons default head.unplaced tail.unplaced
  | record _ fields => record default (fields.map Located.unplaced)
  | named _ inner name => named default inner.unplaced name.unplaced
  | paren _ inner => paren default inner.unplaced

/-- Patterns without their places. -/
def unplacedAll : List Pattern → List Pattern
  | [] => []
  | p :: ps => p.unplaced :: unplacedAll ps

end

/-- Forgetting the places in a list of patterns forgets those in each. -/
theorem unplacedAll_eq (ps : List Pattern) : unplacedAll ps = ps.map unplaced := by
  induction ps with
  | nil => rfl
  | cons p ps ih => rw [unplacedAll, ih, List.map_cons]

end Pattern

namespace Expr

mutual

/-- The expression without its places. -/
def unplaced : Expr → Expr
  | unit _ => unit default
  | literal _ value => literal default value
  | var _ name => var default name
  | operatorFn _ symbol => operatorFn default symbol
  | accessor _ field => accessor default field
  | app _ fn args => app default fn.unplaced (unplacedAll args)
  | binary _ symbol left right => binary default symbol left.unplaced right.unplaced
  | negate _ inner => negate default inner.unplaced
  | paren _ inner => paren default inner.unplaced
  | list _ items => list default (unplacedAll items)
  | tuple _ items => tuple default (unplacedAll items)
  | record _ setters => record default (unplacedSetters setters)
  | update _ base setters => update default base.unplaced (unplacedSetters setters)
  | access _ owner field => access default owner.unplaced field.unplaced
  | cond _ condition thenBranch elseBranch =>
    cond default condition.unplaced thenBranch.unplaced elseBranch.unplaced
  | case _ scrutinee branches => case default scrutinee.unplaced (unplacedBranches branches)
  | lambda _ params body => lambda default (params.map Pattern.unplaced) body.unplaced

/-- Expressions without their places. -/
def unplacedAll : List Expr → List Expr
  | [] => []
  | e :: es => e.unplaced :: unplacedAll es

/-- Setters without their places. -/
def unplacedSetters : List Setter → List Setter
  | [] => []
  | .mk field value :: ss => .mk field.unplaced value.unplaced :: unplacedSetters ss

/-- Branches without their places. -/
def unplacedBranches : List Branch → List Branch
  | [] => []
  | .mk pattern body :: bs => .mk pattern.unplaced body.unplaced :: unplacedBranches bs

end

end Expr

/-- The setter without its places. -/
def Setter.unplaced (s : Setter) : Setter := .mk s.field.unplaced s.value.unplaced

namespace Expr

/-- Forgetting the places in a list of expressions forgets those in each. -/
theorem unplacedAll_eq (es : List Expr) : unplacedAll es = es.map unplaced := by
  induction es with
  | nil => rfl
  | cons e es ih => rw [unplacedAll, ih, List.map_cons]

theorem unplacedSetters_eq (ss : List Setter) : unplacedSetters ss = ss.map Setter.unplaced := by
  induction ss with
  | nil => rfl
  | cons s ss ih =>
    cases s
    rw [unplacedSetters, ih, List.map_cons]
    rfl

end Expr

end Terse
