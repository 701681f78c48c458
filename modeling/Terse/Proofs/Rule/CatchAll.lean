import Terse.Proofs.Rule.Exhaustive

/-!
# Patterns that catch everything

A pattern may bind nothing and look into nothing, and still select the values of one constructor. It
catches everything if it does not name any: then it matches every value of its type, whatever the
values of other types are.
-/

namespace Terse

namespace Pattern

mutual

/-- A pattern that looks into nothing binds nothing. -/
theorem boundVars_eq_nil_of_ignoresValue {p : Pattern} (h : p.ignoresValue = true) :
    p.boundVars = [] := by
  match p with
  | wild _ | unit _ => rw [boundVars]
  | ctor _ _ args =>
    rw [ignoresValue] at h
    rw [boundVars]
    exact boundVarsAll_eq_nil_of_allIgnoreValue h
  | tuple _ items =>
    rw [ignoresValue] at h
    rw [boundVars]
    exact boundVarsAll_eq_nil_of_allIgnoreValue h
  | paren _ inner =>
    rw [ignoresValue] at h
    rw [boundVars]
    exact boundVars_eq_nil_of_ignoresValue h
  | var _ _ | literal _ _ | list _ _ | cons _ _ _ | record _ _ | named _ _ _ =>
    simp [ignoresValue] at h

theorem boundVarsAll_eq_nil_of_allIgnoreValue {ps : List Pattern} (h : allIgnoreValue ps = true) :
    boundVarsAll ps = [] := by
  match ps with
  | [] => rfl
  | p :: ps =>
    rw [allIgnoreValue, Bool.and_eq_true] at h
    rw [boundVarsAll, boundVars_eq_nil_of_ignoresValue h.1,
      boundVarsAll_eq_nil_of_allIgnoreValue h.2]
    rfl

end

end Pattern

open Pattern (FollowsShapes)

/-- A pattern catches everything exactly when it looks into nothing and names no constructor. One
that looks into nothing binds nothing. One that catches everything matches every value of its type:
a wildcard matches anything, the unit is the only value of its type, tuples match part by part, and
parentheses do not matter. -/
theorem catch_all_matches_every_value (p : Pattern) :
    (p.isCatchAll = true ↔ p.ignoresValue = true ∧ p.constructors = []) ∧
    (p.ignoresValue = true → p.boundVars = []) ∧
    (p.isCatchAll = true →
      ∀ (Ty Base : Type) (ctx : Context) (T : Typing Ty Base) (has : Value Base → Ty → Prop),
        FollowsShapes T has →
        ∀ t v, p.Fits ctx T t → has v t → p.Matches ctx T v) := by
  refine ⟨?relation, Pattern.boundVars_eq_nil_of_ignoresValue, ?values⟩
  case relation =>
    rw [Pattern.isCatchAll_eq, Bool.and_eq_true, List.isEmpty_iff]
  case values =>
    intro hcatch Ty Base ctx T has hhas t v hfits hv
    exact Pattern.matches_of_followsShapes hhas hcatch hfits hv

/-- The unit type, one with other values, and the pairs of the two. -/
def pairTyping : Typing Nat Nat where
  shape
    | 0 => .unit
    | 1 => .base
    | _ => .tuple [0, 1]
  selects _ _ := False

/-- The pattern is a pair of the unit and a wildcard in parentheses. -/
def isUnitPair : Pattern → Bool
  | .tuple _ [.unit _, .paren _ (.wild _)] => true
  | _ => false

/-- A parameter that is a pair of the unit and a wildcard matches every pair of its type. -/
theorem catch_all_matches_every_value_pair :
    ∃ m v p, Module.parse "x ((), (_)) = 1\n" = .ok m ∧ v ∈ m.values ∧ p ∈ v.params ∧
      p.isCatchAll = true ∧ p.ignoresValue = true ∧ p.constructors = [] ∧ p.boundVars = [] ∧
      ∀ n, p.Matches (Context.ofModule m) pairTyping (.tuple [.unit, .base n]) := by
  have hread : (Module.parse "x ((), (_)) = 1\n").toOption.any
      (fun m => m.values.any fun v => v.params.any isUnitPair) = true := by
    decide +kernel
  rcases exists_ok_of_any hread with ⟨m, hm, hvalues⟩
  rcases List.any_eq_true.mp hvalues with ⟨v, hv, hparams⟩
  rcases List.any_eq_true.mp hparams with ⟨p, hp, hpair⟩
  unfold isUnitPair at hpair
  split at hpair
  case h_2 => cases hpair
  rename_i whole unit right wild
  have hcatch : (Pattern.tuple whole [.unit unit, .paren right (.wild wild)]).isCatchAll = true :=
    rfl
  rcases catch_all_matches_every_value (.tuple whole [.unit unit, .paren right (.wild wild)]) with
    ⟨hrelation, hbound, hmatches⟩
  rcases hrelation.mp hcatch with ⟨hignores, hnames⟩
  refine ⟨m, v, _, hm, hv, hp, hcatch, hignores, hnames, hbound hignores, ?_⟩
  intro n
  refine hmatches hcatch Nat Nat (Context.ofModule m) pairTyping
    (HasType (Context.ofModule m) pairTyping) Pattern.hasType_followsShapes 2 _ ?fits ?type
  case fits => simp [Pattern.Fits, Pattern.FitsAll, pairTyping]
  case type => exact .tuple rfl (.cons (.unit rfl) (.cons (.base rfl) .nil))

end Terse
