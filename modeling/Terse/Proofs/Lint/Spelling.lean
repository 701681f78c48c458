import Terse.Proofs.Lint.Node
import Terse.Proofs.Rule.Alike

/-!
# Ways to write a call

A function may be applied to all its arguments at once, to some of them in parentheses first, or to
the last one through a pipe. All of these are one call, and the same rule says the same about it.
-/

namespace Terse

/-- The expression applies a reference to some arguments; to none, it is the reference alone. -/
inductive Expr.Applies (q : QualifiedName) : List Expr → Expr → Prop where
  | name (r : Range) : Applies q [] (.var r q)
  | args (r r' : Range) {args : List Expr} (h : args ≠ []) :
    Applies q args (.app r (.var r' q) args)

/-- The expression is a call of a reference with some arguments: written in one piece, with some of
the arguments in parentheses with the reference, or with the last argument before or behind a
pipe. -/
inductive Expr.Spells (q : QualifiedName) : List Expr → Expr → Prop where
  | direct (r r' : Range) {args : List Expr} (h : args ≠ []) :
    Spells q args (.app r (.var r' q) args)
  | parenthesized (r r' : Range) {first more : List Expr} {e : Expr} (he : e.Applies q first)
    (h : more ≠ []) : Spells q (first ++ more) (.app r (.paren r' e) more)
  | pipeRight (r : Range) {first : List Expr} {last e : Expr} (he : e.Applies q first) :
    Spells q (first ++ [last]) (.binary r "|>" last e)
  | pipeLeft (r : Range) {first : List Expr} {last e : Expr} (he : e.Applies q first) :
    Spells q (first ++ [last]) (.binary r "<|" e last)

section

variable {ctx : Context} {q : QualifiedName} {fn : ResolvedName} (hq : ctx.resolve q = some fn)
include hq

theorem Expr.Applies.within {args : List Expr} {e : Expr} (h : e.Applies q args) (range : Range) :
    ∃ r, Call.within ctx range e = some ⟨fn, r, args, .direct, range⟩ := by
  cases h with
  | name r =>
    refine ⟨r, ?_⟩
    rw [Call.within, hq]
    rfl
  | args r r' h =>
    refine ⟨r', ?_⟩
    rw [Call.within, Call.within, hq]
    rfl

/-- Each spelling is a call of the function with the arguments. -/
theorem Expr.Spells.writes {args : List Expr} {e : Expr} (h : e.Spells q args) :
    ∃ call, e.Writes ctx call ∧ call.function = fn ∧ call.args = args := by
  cases h with
  | direct r r' h =>
    rcases (Applies.args r r' h).within hq r with ⟨r'', hcall⟩
    exact ⟨_, ⟨rfl, hcall⟩, rfl, rfl⟩
  | parenthesized r r' he h =>
    rename_i first more e
    rcases he.within hq (paren r' e).range with ⟨r'', hcall⟩
    refine ⟨⟨fn, r'', _, .direct, r⟩, ⟨rfl, ?_⟩, rfl, rfl⟩
    rw [Call.ofExpr?, Call.within, Call.within, hcall]
    rfl
  | pipeRight r he =>
    rename_i first last e
    rcases he.within hq e.range with ⟨r'', hcall⟩
    refine ⟨⟨fn, r'', _, .pipeRight, r⟩, ⟨rfl, ?_⟩, rfl, rfl⟩
    rw [Call.ofExpr?, Call.within, hcall]
    rfl
  | pipeLeft r he =>
    rename_i first last e
    rcases he.within hq e.range with ⟨r'', hcall⟩
    refine ⟨⟨fn, r'', _, .pipeLeft, r⟩, ⟨rfl, ?_⟩, rfl, rfl⟩
    rw [Call.ofExpr?, Call.within, hcall]
    rfl

end

theorem Expr.Spells.args_ne_nil {q : QualifiedName} {args : List Expr} {e : Expr}
    (h : e.Spells q args) : args ≠ [] := by
  cases h with
  | direct _ _ h => exact h
  | parenthesized _ _ _ h => simp [h]
  | pipeRight | pipeLeft => simp

/-- Of two arguments or more, the first one is behind the name in every call. -/
theorem Call.argIsAdjacent_of_two {call : Call} (h : 2 ≤ call.args.length) :
    call.argIsAdjacent 0 = true := by
  unfold Call.argIsAdjacent
  split <;> rw [decide_eq_true_eq] <;> omega

/-- However a call of a known function is written, it is that call, with all its arguments in their
order. The first rule that reports is the same, with the same message, for any two ways of writing
it, wherever they stand and with whatever parentheses in the arguments; only a single argument of
`List.concatMap` and `String.join` is another matter. -/
theorem spelling_does_not_matter {ctx : Context} {q : QualifiedName} {fn : ResolvedName}
    (hq : ctx.resolve q = some fn) :
    (∀ args e, e.Spells q args → ∃ call, Call.ofExpr? ctx e = some call ∧ call.function = fn ∧
      call.args = args) ∧
    ∀ rules ⊆ Rule.all, ∀ args args' e e', e.Spells q args → e'.Spells q args' →
      args.map Expr.erase = args'.map Expr.erase → ¬ (fn.ReadsAdjacency ∧ args.length = 1) →
      (Rule.firstFinding rules ctx e).map Finding.verdict =
        (Rule.firstFinding rules ctx e').map Finding.verdict := by
  constructor
  · intro args e he
    rcases he.writes hq with ⟨call, hwrites, hfunction, hargs⟩
    exact ⟨call, hwrites.call, hfunction, hargs⟩
  · intro rules hrules args args' e e' he he' hsame hexcept
    rcases he.writes hq with ⟨c, hc, hfunction, hargs⟩
    rcases he'.writes hq with ⟨c', hc', hfunction', hargs'⟩
    have halike : c.Alike c' :=
      ⟨hfunction.trans hfunction'.symm, by rw [hargs, hargs', hsame]⟩
    apply hc.verdict_firstFinding hc' halike ?_ hrules
    intro hreads
    rw [hfunction] at hreads
    -- there are two arguments at least
    have hlength : args.length = args'.length := by
      simpa using congrArg List.length hsame
    have hpositive : 0 < args.length := List.length_pos_iff.mpr he.args_ne_nil
    have hone : args.length ≠ 1 := fun h => hexcept ⟨hreads, h⟩
    rw [Call.argIsAdjacent_of_two (by rw [hargs]; omega),
      Call.argIsAdjacent_of_two (by rw [hargs']; omega)]

/-- The expression calls the function by its name and with two arguments. -/
def Expr.callsWithTwo (q : QualifiedName) : Expr → Bool
  | .app _ (.var _ q') [_, _] => q' = q
  | _ => false

theorem Expr.exists_of_callsWithTwo {q : QualifiedName} {e : Expr} (h : e.callsWithTwo q = true) :
    ∃ r r' first second, e = .app r (.var r' q) [first, second] := by
  unfold callsWithTwo at h
  split at h
  · rcases of_decide_eq_true h with rfl
    exact ⟨_, _, _, _, rfl⟩
  · cases h

/-- A map over the identity, written in one piece and with a pipe. -/
theorem spelling_does_not_matter_map :
    ∃ (ctx : Context) (q : QualifiedName) (e e' : Expr) (args : List Expr),
      ctx.resolve q = some ⟨Core.list, "map"⟩ ∧ e.Spells q args ∧ e'.Spells q args ∧
      (Rule.firstFinding Rule.all ctx e).isSome = true ∧
      (Rule.firstFinding Rule.all ctx e).map Finding.verdict =
        (Rule.firstFinding Rule.all ctx e').map Finding.verdict := by
  have hfound : someNode "x y = List.map identity y\n" (fun ctx e =>
      ctx.resolve ⟨Core.list, "map"⟩ = some ⟨Core.list, "map"⟩ &&
        e.callsWithTwo ⟨Core.list, "map"⟩ && (Rule.firstFinding Rule.all ctx e).isSome) = true := by
    decide +kernel
  rcases exists_of_someNode hfound with ⟨_, _, e, ctx, -, -, -, htest⟩
  simp only [Bool.and_eq_true, decide_eq_true_eq] at htest
  rcases htest with ⟨⟨hq, hform⟩, hsome⟩
  rcases Expr.exists_of_callsWithTwo hform with ⟨r, r', function, l, rfl⟩
  have he : Expr.Spells ⟨Core.list, "map"⟩ [function, l]
      (.app r (.var r' ⟨Core.list, "map"⟩) [function, l]) := .direct r r' (by simp)
  have he' : Expr.Spells ⟨Core.list, "map"⟩ ([function] ++ [l])
      (.binary r "|>" l (.app r (.var r' ⟨Core.list, "map"⟩) [function])) :=
    .pipeRight r (.args r r' (by simp))
  refine ⟨ctx, _, _, _, _, hq, he, he', hsome, ?_⟩
  exact (spelling_does_not_matter hq).2 _ (List.Subset.refl _) _ _ _ _ he he' rfl (by simp)

end Terse
