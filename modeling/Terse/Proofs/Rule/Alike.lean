import Terse.Proofs.Rule.Verdict

/-!
# Calls that are alike

About two calls of one function with the same arguments, apart from places and parentheses, all
rules say the same. So the first rule that reports is the same for both.
-/

namespace Terse

/-! ## Calls that are alike -/

/-- Two calls have the same function and, apart from places and parentheses, the same arguments. -/
structure Call.Alike (c c' : Call) : Prop where
  function : c.function = c'.function
  args : c.args.map Expr.erase = c'.args.map Expr.erase

namespace Call.Alike

variable {c c' : Call} (h : c.Alike c')
include h

/-- Both calls erase to one; it is written like the first of them. -/
theorem exists_erasesTo :
    ∃ b, c.ErasesTo b ∧ c'.ErasesTo b ∧ b.argIsAdjacent 0 = c.argIsAdjacent 0 := by
  refine ⟨c.erase, ⟨rfl, rfl⟩, ⟨h.function, h.args⟩, ?_⟩
  simp only [Call.argIsAdjacent, Call.erase, List.length_map]

theorem readsArgs {check : CallCheck} (hcheck : check.ReadsArgs) (lib : Library) (ctx : Context) :
    (check lib ctx c).map Finding.verdict = (check lib ctx c').map Finding.verdict := by
  rcases h.exists_erasesTo with ⟨b, hc, hc', -⟩
  rw [← hcheck lib ctx c b hc, hcheck lib ctx c' b hc']

end Call.Alike

/-- The function is one of the two whose calls are checked for where their first argument is. -/
def ResolvedName.ReadsAdjacency (fn : ResolvedName) : Prop :=
  fn = ⟨Core.list, "concatMap"⟩ ∨ fn = ⟨Core.string, "join"⟩

/-! ## Checks of calls -/

namespace Family

variable {family : Family} {ctx : Context} {c c' : Call} (h : c.Alike c')
include h

/-- What a family says is what the check of the function says. -/
theorem checkCall_alike (hchecks : c.function.path = family.library.path →
    ∀ check, (c.function.name, check) ∈ family.checks →
      (check family.library ctx c).map Finding.verdict =
        (check family.library ctx c').map Finding.verdict) :
    (family.checkCall ctx c).map Finding.verdict =
      (family.checkCall ctx c').map Finding.verdict := by
  unfold checkCall
  rw [← h.function]
  by_cases hpath : c.function.path = family.library.path
  · rw [if_pos hpath, if_pos hpath]
    cases hlookup : family.checks.lookup c.function.name with
    | none => rfl
    | some check => exact hchecks hpath check (mem_of_lookup hlookup)
  · rw [if_neg hpath, if_neg hpath]

theorem checkCall_alike_of_readsArgs (hchecks : ∀ c ∈ family.checks, CallCheck.ReadsArgs c.2) :
    (family.checkCall ctx c).map Finding.verdict =
      (family.checkCall ctx c').map Finding.verdict := by
  apply checkCall_alike h
  intro _ check hmem
  exact h.readsArgs (hchecks _ hmem) _ _

/-- One function of the family may be checked for where its first argument is. -/
theorem checkCall_alike_of_readsAdjacency {name : String} {special : CallCheck}
    (hspecial : special.ReadsAdjacency)
    (hchecks : ∀ c ∈ family.checks, c = (name, special) ∨ CallCheck.ReadsArgs c.2)
    (hadjacent : c.function = ⟨family.library.path, name⟩ →
      c.argIsAdjacent 0 = c'.argIsAdjacent 0) :
    (family.checkCall ctx c).map Finding.verdict =
      (family.checkCall ctx c').map Finding.verdict := by
  apply checkCall_alike h
  intro hpath check hmem
  rcases hchecks _ hmem with heq | hreads
  · rcases Prod.mk.inj heq with ⟨hname, rfl⟩
    have hsame := hadjacent (by rw [← hpath, ← hname])
    rcases h.exists_erasesTo with ⟨b, hc, hc', hb⟩
    rw [← hspecial _ ctx c b hc hb, hspecial _ ctx c' b hc' (hb.trans hsame)]
  · exact h.readsArgs hreads _ _

end Family

/-! ## Rules at nodes -/

/-- The expression applies a function, as an application or by a pipe. -/
def Expr.isApplied : Expr → Bool
  | app _ _ _ => true
  | binary _ symbol _ _ => symbol == "|>" || symbol == "<|"
  | _ => false

/-- The expression applies a function and is this call. -/
structure Expr.Writes (ctx : Context) (e : Expr) (c : Call) : Prop where
  applied : e.isApplied = true
  call : Call.ofExpr? ctx e = some c

/-- What the rule says about an expression; it looks only at its own forms. -/
def Rule.verdict (rule : Rule) (ctx : Context) (e : Expr) : Option (RuleCode × String) :=
  (if rule.forms.contains e.form then rule.check ctx e else none).map Finding.verdict

theorem Rule.verdict_firstFinding (rules : List Rule) (ctx : Context) (e : Expr) :
    (firstFinding rules ctx e).map Finding.verdict = rules.findSome? (·.verdict ctx e) := by
  rw [firstFinding, List.map_findSome?]
  rfl

namespace Expr.Writes

variable {ctx : Context} {e e' : Expr} {c c' : Call} (h : e.Writes ctx c)
include h

/-- An operation that is a call is a pipe. -/
theorem symbol_eq {r : Range} {symbol : String} {left right : Expr}
    (he : e = .binary r symbol left right) : symbol = "|>" ∨ symbol = "<|" := by
  have happlied := h.applied
  subst he
  simpa [isApplied] using happlied

/-- Applications and pipes are not chains. -/
theorem chain?_eq_none : Chain.ofExpr? e = none := by
  cases e with
  | binary _ symbol _ _ => rcases h.symbol_eq rfl with rfl | rfl <;> rfl
  | _ => rfl

/-- A rule that looks at applications and at operations looks at the expression. -/
theorem verdict_eq {rule : Rule} (hforms : rule.forms = [.app, .binary]) :
    rule.verdict ctx e = (rule.check ctx e).map Finding.verdict := by
  have happlied := h.applied
  unfold Rule.verdict
  rw [hforms]
  cases e with
  | app | binary => rfl
  | _ => cases happlied

/-- A rule that leaves the expression to a family says what the family says about the call. -/
theorem verdict_of_family {rule : Rule} {family : Family} (hforms : rule.forms = [.app, .binary])
    (hcheck : rule.check ctx e = family.check ctx e) :
    rule.verdict ctx e = (family.checkCall ctx c).map Finding.verdict := by
  rw [h.verdict_eq hforms, hcheck, Family.check, h.call, Option.bind_some]

theorem verdict_list : Rule.Lists.rule.verdict ctx e =
    (Rule.Lists.family.checkCall ctx c).map Finding.verdict := by
  apply h.verdict_of_family rfl
  cases e with
  | binary _ symbol _ _ => rcases h.symbol_eq rfl with rfl | rfl <;> rfl
  | _ => rfl

theorem verdict_string : Rule.Strings.rule.verdict ctx e =
    (Rule.Strings.family.checkCall ctx c).map Finding.verdict := by
  apply h.verdict_of_family rfl
  cases e with
  | binary _ symbol _ _ => rcases h.symbol_eq rfl with rfl | rfl <;> rfl
  | _ => rfl

/-- A rule about other operators says nothing. -/
theorem verdict_eq_none_of_binary {rule : Rule} (hforms : rule.forms = [.binary])
    (hcheck : ∀ r symbol left right, symbol = "|>" ∨ symbol = "<|" →
      rule.check ctx (.binary r symbol left right) = none) : rule.verdict ctx e = none := by
  unfold Rule.verdict
  rw [hforms]
  cases e with
  | binary r symbol left right =>
    rw [hcheck r symbol left right (h.symbol_eq rfl)]
    simp
  | _ => rfl

/-- A rule about other forms says nothing. -/
theorem verdict_eq_none {rule : Rule} {form : Form} (hforms : rule.forms = [form])
    (hform : form ≠ .app ∧ form ≠ .binary) : rule.verdict ctx e = none := by
  have happlied := h.applied
  unfold Rule.verdict
  rw [hforms]
  cases e with
  | app | binary =>
    rw [if_neg]
    · rfl
    · simp [Expr.form, Ne.symm hform.1, Ne.symm hform.2]
  | _ => cases happlied

end Expr.Writes

namespace Call

/-- A function that is given arguments in a call is neither an operator nor a lambda. -/
theorem ofExpr?_app_eq_none {ctx : Context} {r : Range} {fn : Expr} {args : List Expr}
    (h : (∃ r symbol, fn.stripParens = .operatorFn r symbol) ∨
      ∃ r params body, fn.stripParens = .lambda r params body) :
    ofExpr? ctx (.app r fn args) = none := by
  rw [ofExpr?, within, ← within_stripParens]
  rcases h with ⟨r, symbol, hfn⟩ | ⟨r, params, body, hfn⟩ <;> rw [hfn] <;> rfl

end Call

namespace Expr.Writes

variable {ctx : Context} {e e' : Expr} {c c' : Call}

/-! ## Rules about functions that are no references -/

theorem verdict_operatorFunctions (h : e.Writes ctx c) :
    Rule.operatorFunctions.verdict ctx e = none := by
  have hcall := h.call
  cases e with
  | app r fn args =>
    cases fn with
    | operatorFn r' symbol =>
      rw [Call.ofExpr?_app_eq_none (.inl ⟨r', symbol, rfl⟩)] at hcall
      cases hcall
    | _ => rfl
  | _ => rfl

theorem verdict_appliedLambda (h : e.Writes ctx c) : Rule.appliedLambda.verdict ctx e = none := by
  have hcall := h.call
  cases e with
  | app r fn args =>
    have hcheck : Rule.checkAppliedLambda ctx (.app r fn args) = none := by
      cases args with
      | nil => rfl
      | cons argument more =>
        unfold Rule.checkAppliedLambda
        cases hfn : fn.stripParens with
        | lambda r' params body =>
          rw [Call.ofExpr?_app_eq_none (.inr ⟨r', params, body, hfn⟩)] at hcall
          cases hcall
        | _ => simp only [hfn]
    simp [Rule.verdict, Rule.appliedLambda, Expr.form, hcheck]
  | _ => rfl

/-! ## Rules about single functions -/

/-- What is said about a call of `not` is said about what it erases to. -/
theorem verdict_notCalls_erased {b : Call} (h : e.Writes ctx c) (hb : c.ErasesTo b) :
    Rule.notCalls.verdict ctx e =
      (match b.isOf Core.basics "not", b.args with
        | true, [argument] => Rule.checkNotCall ctx b argument
        | _, _ => none).map Finding.verdict := by
  rw [h.verdict_eq rfl]
  simp only [Rule.notCalls, Rule.checkNot, h.chain?_eq_none, h.call, hb.isOf, hb.args]
  rcases c.args with _ | ⟨argument, _ | ⟨next, more⟩⟩
  · cases c.isOf Core.basics "not" <;> rfl
  · cases c.isOf Core.basics "not" with
    | false => rfl
    | true => exact (Rule.checkNotCall_verdict ctx c b argument).symm
  · cases c.isOf Core.basics "not" <;> rfl

section

variable (h : e.Writes ctx c) (h' : e'.Writes ctx c') (hc : c.Alike c')
include h h' hc

theorem verdict_notCalls : Rule.notCalls.verdict ctx e = Rule.notCalls.verdict ctx e' := by
  rcases hc.exists_erasesTo with ⟨b, hb, hb', -⟩
  rw [h.verdict_notCalls_erased hb, h'.verdict_notCalls_erased hb']

theorem verdict_basics : Rule.basics.verdict ctx e = Rule.basics.verdict ctx e' := by
  rcases hc.exists_erasesTo with ⟨b, hb, hb', -⟩
  have hverdict : ∀ {x : Expr} {c : Call}, x.Writes ctx c → c.ErasesTo b →
      Rule.basics.verdict ctx x =
        if b.isOf Core.basics "identity" then (Rule.checkIdentity ctx b e).map Finding.verdict
        else if b.isOf Core.basics "always" then (Rule.checkAlways ctx b e).map Finding.verdict
        else none := by
    intro x c h hb
    rw [h.verdict_eq rfl]
    simp only [Rule.basics, Rule.checkBasics, h.chain?_eq_none, h.call, hb.isOf, verdict_ite,
      Rule.checkIdentity_verdict ctx hb x e, Rule.checkAlways_verdict ctx hb x e, Option.map_none]
  rw [hverdict h hb, hverdict h' hb']

end

/-! ## All rules -/

/-- Whatever the rule, it says the same about calls that are alike. -/
theorem verdict_ofCode (h : e.Writes ctx c) (h' : e'.Writes ctx c') (hc : c.Alike c')
    (hadjacent : c.function.ReadsAdjacency → c.argIsAdjacent 0 = c'.argIsAdjacent 0)
    (code : RuleCode) : (Rule.ofCode code).verdict ctx e = (Rule.ofCode code).verdict ctx e' := by
  have hfamily : ∀ family : Family, (∀ c ∈ family.checks, CallCheck.ReadsArgs c.2) →
      family.rule.verdict ctx e = family.rule.verdict ctx e' := by
    intro family hchecks
    rw [h.verdict_of_family rfl rfl, h'.verdict_of_family rfl rfl,
      family.checkCall_alike_of_readsArgs hc hchecks]
  -- a call that is written with a pipe is an operation, but no rule on operations is about pipes
  have hother : ∀ {rule : Rule}, rule.forms = [.binary] →
      (∀ r symbol left right, symbol = "|>" ∨ symbol = "<|" →
        rule.check ctx (.binary r symbol left right) = none) →
      rule.verdict ctx e = rule.verdict ctx e' := by
    intro rule hforms hcheck
    rw [h.verdict_eq_none_of_binary hforms hcheck, h'.verdict_eq_none_of_binary hforms hcheck]
  have hform : ∀ {rule : Rule} {form : Form}, rule.forms = [form] → form ≠ .app ∧ form ≠ .binary →
      rule.verdict ctx e = rule.verdict ctx e' := by
    intro rule form hforms hform
    rw [h.verdict_eq_none hforms hform, h'.verdict_eq_none hforms hform]
  cases code with
  | booleanOperators => exact hother rfl (by rintro r symbol left right (rfl | rfl) <;> rfl)
  | equality => exact hother rfl (by rintro r symbol left right (rfl | rfl) <;> rfl)
  | arithmetic => exact hother rfl (by rintro r symbol left right (rfl | rfl) <;> rfl)
  | comparison => exact hother rfl (by rintro r symbol left right (rfl | rfl) <;> rfl)
  | ifExpressions | caseExpressions | recordUpdate | numberNegation =>
    exact hform rfl (by decide)
  | operatorFunctions => exact h.verdict_operatorFunctions.trans h'.verdict_operatorFunctions.symm
  | appliedLambda => exact h.verdict_appliedLambda.trans h'.verdict_appliedLambda.symm
  | notCalls => exact verdict_notCalls h h' hc
  | basics => exact verdict_basics h h' hc
  | list =>
    rw [Rule.ofCode, h.verdict_list, h'.verdict_list]
    exact Rule.Lists.family.checkCall_alike_of_readsAdjacency hc
      Rule.Lists.concatMap_readsAdjacency Rule.Lists.family_readsArgs (hadjacent ∘ .inl)
  | string =>
    rw [Rule.ofCode, h.verdict_string, h'.verdict_string]
    exact Rule.Strings.family.checkCall_alike_of_readsAdjacency hc
      Rule.Strings.join_readsAdjacency Rule.Strings.family_readsArgs (hadjacent ∘ .inr)
  | maybe => exact hfamily _ Rule.Wrapped.maybeFamily_readsArgs
  | result => exact hfamily _ Rule.Wrapped.resultFamily_readsArgs
  | set => exact hfamily _ Rule.Collection.setFamily_readsArgs
  | dict => exact hfamily _ Rule.Collection.dictFamily_readsArgs
  | cmd => exact hfamily _ Rule.Effect.cmdFamily_readsArgs
  | sub => exact hfamily _ Rule.Effect.subFamily_readsArgs

/-- The first rule that reports says the same about calls that are alike. -/
theorem verdict_firstFinding (h : e.Writes ctx c) (h' : e'.Writes ctx c') (hc : c.Alike c')
    (hadjacent : c.function.ReadsAdjacency → c.argIsAdjacent 0 = c'.argIsAdjacent 0)
    {rules : List Rule} (hrules : rules ⊆ Rule.all) :
    (Rule.firstFinding rules ctx e).map Finding.verdict =
      (Rule.firstFinding rules ctx e').map Finding.verdict := by
  rw [Rule.verdict_firstFinding, Rule.verdict_firstFinding]
  induction rules with
  | nil => rfl
  | cons rule rules ih =>
    rcases List.mem_map.mp (hrules List.mem_cons_self) with ⟨code, -, rfl⟩
    rw [List.findSome?_cons, List.findSome?_cons, verdict_ofCode h h' hc hadjacent code,
      ih fun r hr => hrules (List.mem_cons_of_mem _ hr)]

end Expr.Writes

end Terse
