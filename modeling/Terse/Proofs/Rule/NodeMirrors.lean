import Terse.Proofs.Rule.Mirror
import Terse.Rule.Boolean
import Terse.Rule.Conditional
import Terse.Rule.Function
import Terse.Rule.Number
import Terse.Rule.Record

/-!
# Nodes of one form at twins

What the rules find at operations, conditionals, cases, updates and applied functions mirrors what
they find at twins of these nodes.
-/

namespace Terse.Rule

variable {place place' : Location → Prop} {P : Prop} {ctx : Context} (source : SourceText)
  (isFree : Bool) {e e' : Expr}

/-! ## Boolean operators -/

/-- An operand that decides an operation does so in the twin of the operation. -/
theorem knownOperand_mirrors (h : e.Twins place place' e') (absorbing value : Bool)
    {known known' other other' : Expr} (hknown : Expr.Facing e e' known known')
    (hother : Expr.Facing e e' other other') :
    (knownOperand ctx e.range absorbing value known other).Mirrors P e e'
      (knownOperand (ctx.moved source isFree) e'.range absorbing value known' other') := by
  unfold knownOperand
  split
  · exact h.kept hknown
  · exact h.kept hother

section

variable {r r' : Range} {symbol : String} {left right left' right' : Expr}
  (h : (Expr.binary r symbol left right).Twins place place' (.binary r' symbol left' right'))
  (hleft : Expr.Facing (.binary r symbol left right) (.binary r' symbol left' right') left left')
  (hright : Expr.Facing (.binary r symbol left right) (.binary r' symbol left' right') right right')
include h hleft hright

/-- What is found in a boolean operation mirrors what is found in its twin. -/
theorem checkBooleanOperator_mirrors :
    Mirrored P (.binary r symbol left right) (.binary r' symbol left' right')
      (checkBooleanOperator ctx (.binary r symbol left right))
      (checkBooleanOperator (ctx.moved source isFree) (.binary r' symbol left' right')) := by
  unfold checkBooleanOperator
  dsimp only
  rw [Context.bool?_moved, Context.areEqual_moved, hleft.twin.bool?, hright.twin.bool?,
    hleft.twin.areEqual ctx hright.twin]
  cases absorbing? symbol with
  | none => exact .none
  | some absorbing =>
    cases ctx.bool? left with
    | some value => exact .some (knownOperand_mirrors source isFree h absorbing value hleft hright)
    | none =>
      cases ctx.bool? right with
      | some value =>
        exact .some (knownOperand_mirrors source isFree h absorbing value hright hleft)
      | none => exact .ite (.some (h.kept hleft)) .none

end

/-! ## Equality -/

section

variable {x x' y y' : Expr} (hx : Expr.Facing e e' x x') (hy : Expr.Facing e e' y y')
include hx hy

theorem facing_comparedWithBool? (isEqual : Bool) :
    Option.Rel (Expr.Facing e e') (comparedWithBool? ctx isEqual x y)
      (comparedWithBool? (ctx.moved source isFree) isEqual x' y') := by
  unfold comparedWithBool?
  rw [Context.bool?_moved, hx.twin.bool?, hy.twin.bool?]
  split
  · exact .some hx
  split
  · exact .some hy
  · exact .none

/-- The outcome of a comparison is known when that of its twin is. -/
theorem knownComparison?_twin (isEqual : Bool) :
    knownComparison? (ctx.moved source isFree) isEqual x' y' =
      knownComparison? ctx isEqual x y := by
  unfold knownComparison? literalsEqual?
  rw [Context.areEqual_moved, hx.twin.areEqual ctx hy.twin, hx.twin.number?, hy.twin.number?,
    hx.twin.literal?, hy.twin.literal?]

end

/-- What is negated faces what is negated in the twin. -/
theorem facing_negated? {x x' : Expr} (h : Expr.Facing e e' x x') :
    Option.Rel (fun p p' => Expr.Facing e e' p.2 p'.2) (negated? ctx x)
      (negated? (ctx.moved source isFree) x') := by
  have hcall := Call.facing_within ctx h x.range x'.range
  change Option.Rel _ (Call.ofExpr? ctx x) (Call.ofExpr? ctx x') at hcall
  unfold negated?
  rw [Context.ofExpr?_moved]
  generalize Call.ofExpr? ctx x = c, Call.ofExpr? ctx x' = c' at hcall ⊢
  cases hcall with
  | none => exact .none
  | @some c c' hcall =>
    have hargs := hcall.args
    dsimp only
    rw [Call.isOf, Call.isOf, ← hcall.function, ← hcall.form]
    generalize c.args = as, c'.args = as' at hargs ⊢
    cases hargs with
    | nil => cases (c.function == (⟨Core.basics, "not"⟩ : ResolvedName)) <;> exact .none
    | cons hfirst hmore =>
      cases hmore with
      | nil =>
        cases (c.function == (⟨Core.basics, "not"⟩ : ResolvedName)) <;> cases c.form <;>
          first | exact .none | exact .some hfirst
      | cons => cases (c.function == (⟨Core.basics, "not"⟩ : ResolvedName)) <;> exact .none

/-- The nodes of a direct negation are those of the argument, and those that hold `not`. -/
theorem negated?_parts {x argument : Expr} {name : Range} (hx : x.Nested place)
    (h : negated? ctx x = some (name, argument)) :
    argument.Lies place x.range.start x.range.stop ∧ x.range.start ≤ name.start ∧
      name.start < name.stop ∧ name.stop ≤ argument.range.start ∧
      ∀ n ∈ x.nodes, n ∈ argument.nodes ∨ n.range.start ≤ name.start ∧ name.stop ≤ n.range.stop := by
  unfold negated? at h
  split at h
  · rename_i call hcall
    rcases Call.ofExpr?_fills hx hcall with ⟨hfills, hrange⟩
    split at h
    · rename_i argument' _ hargs hdirect
      cases h
      have hbehind : argument ∈ call.behind := by
        simp [Call.behind, hdirect, hargs]
      rw [← hrange]
      refine ⟨hfills.arg_lies (by simp [hargs]), hfills.stands.start_le, hfills.stands.fn.lt,
        (hfills.behind_lies hbehind).2.1, fun n hn => ?_⟩
      have hcases := Call.mem_args_or_holds hx hcall hn
      rw [hargs] at hcases
      simpa using hcases
    · cases h
  · cases h

section

variable {r r' : Range} {symbol : String} {left right left' right' : Expr}

/-- Taking away the negation on both sides spares what is negated. -/
theorem negations_spared (he : Expr.Nested place (.binary r symbol left right))
    {leftNot rightNot : Range} {leftArg rightArg : Expr}
    (hleft : negated? ctx left = some (leftNot, leftArg))
    (hright : negated? ctx right = some (rightNot, rightArg)) :
    Spares (.binary r symbol left right) [leftArg, rightArg]
      [.remove ⟨leftNot.start, leftArg.range.start⟩,
        .remove ⟨rightNot.start, rightArg.range.start⟩] := by
  have hgap := (between_cons.mp (between_cons.mp (Expr.nested_operands he)).2.2).1
  obtain ⟨hleftLies, hleftStart, hleftLt, hleftLe, hleftNodes⟩ :=
    negated?_parts he.left_part.1.1 hleft
  obtain ⟨hrightLies, hrightStart, hrightLt, hrightLe, hrightNodes⟩ :=
    negated?_parts he.right_part.1.1 hright
  have hleftStop := hleftLies.2.2
  have hleftArgLe := hleftLies.1.le
  have hbefore : leftArg.range.stop ≤ rightNot.start := by order
  apply spares_of_apart he
  · simp only [List.forall_mem_cons, List.not_mem_nil, false_implies, implies_true, and_true]
    exact ⟨⟨hleftLies.1, .inl le_rfl, .inr hbefore⟩, hrightLies.1,
      .inl (show leftArg.range.start ≤ rightArg.range.start by order), .inl le_rfl⟩
  · intro n hn hlt hout
    simp only [List.forall_mem_cons, List.not_mem_nil, false_implies, implies_true,
      and_true] at hout
    rcases List.mem_flatMap.mp hn with ⟨x, hx, hnx⟩
    rcases List.mem_filter.mp hnx with ⟨hnx, hbare⟩
    rw [hit_cons, hit_cons]
    -- a node of a negation is in what is negated, or starts in what is taken away
    rcases List.mem_cons.mp hx with rfl | hx
    · rcases hleftNodes n hnx with hin | ⟨hstart, hstop⟩
      · exact absurd (List.mem_filter.mpr ⟨hin, hbare⟩) hout.1
      · exact .inl ⟨show leftNot.start < n.range.stop by order,
          show n.range.start < leftArg.range.start by order⟩
    · rw [List.mem_singleton.mp hx] at hnx
      rcases hrightNodes n hnx with hin | ⟨hstart, hstop⟩
      · exact absurd (List.mem_filter.mpr ⟨hin, hbare⟩) hout.2
      · exact .inr (.inl ⟨show rightNot.start < n.range.stop by order,
          show n.range.start < rightArg.range.start by order⟩)

variable
  (h : (Expr.binary r symbol left right).Twins place place' (.binary r' symbol left' right'))
  (hleft : Expr.Facing (.binary r symbol left right) (.binary r' symbol left' right') left left')
  (hright : Expr.Facing (.binary r symbol left right) (.binary r' symbol left' right') right right')
include h hleft hright

theorem checkComparison_mirrors (isEqual : Bool) :
    Mirrored P (.binary r symbol left right) (.binary r' symbol left' right')
      (checkComparison ctx r isEqual left right)
      (checkComparison (ctx.moved source isFree) r' isEqual left' right') := by
  have hcompared : Option.Rel _ (comparedWithBool? ctx isEqual left right) _ :=
    facing_comparedWithBool? source isFree hleft hright isEqual
  have hleftNot : Option.Rel _ (negated? ctx left) _ := facing_negated? source isFree hleft
  have hrightNot : Option.Rel _ (negated? ctx right) _ := facing_negated? source isFree hright
  unfold checkComparison
  rw [knownComparison?_twin source isFree hleft hright]
  generalize comparedWithBool? ctx isEqual left right = o,
    comparedWithBool? (ctx.moved source isFree) isEqual left' right' = o' at hcompared ⊢
  cases hcompared with
  | some hkept => exact .some (h.kept hkept)
  | none =>
    cases knownComparison? ctx isEqual left right with
    | some result => exact .some h.replaced
    | none =>
      dsimp only
      generalize hl : negated? ctx left = a, hl' : negated? (ctx.moved source isFree) left' = a',
        hr : negated? ctx right = b, hr' : negated? (ctx.moved source isFree) right' = b'
        at hleftNot hrightNot ⊢
      cases hleftNot with
      | none => exact .none
      | some hleftArg =>
        cases hrightNot with
        | none => exact .none
        | some hrightArg =>
          exact .some (h.mirrors_of_spares rfl (fun _ => .cons hleftArg (.cons hrightArg .nil))
            (negations_spared h.nested hl hr) (negations_spared h.nested' hl' hr'))

/-- What is found in a comparison for equality mirrors what is found in its twin. -/
theorem checkEquality_mirrors :
    Mirrored P (.binary r symbol left right) (.binary r' symbol left' right')
      (checkEquality ctx (.binary r symbol left right))
      (checkEquality (ctx.moved source isFree) (.binary r' symbol left' right')) :=
  .ite (checkComparison_mirrors source isFree h hleft hright true)
    (.ite (checkComparison_mirrors source isFree h hleft hright false) .none)

/-! ## Arithmetic -/

/-- What is found in arithmetic mirrors what is found in its twin. -/
theorem checkArithmetic_mirrors :
    Mirrored P (.binary r symbol left right) (.binary r' symbol left' right')
      (checkArithmetic ctx (.binary r symbol left right))
      (checkArithmetic (ctx.moved source isFree) (.binary r' symbol left' right')) := by
  unfold checkArithmetic checkPlus checkMinus checkTimes checkDivide keepOperand
  dsimp only
  rw [hleft.twin.isZero, hright.twin.isZero, hleft.twin.isOne, hright.twin.isOne]
  have hkeepLeft : ∀ message detail,
      Mirrored P (.binary r symbol left right) (.binary r' symbol left' right')
        (some (keepOperand ctx r message detail left))
        (some (keepOperand (ctx.moved source isFree) r' message detail left')) :=
    fun _ _ => .some (h.kept hleft)
  have hkeepRight : ∀ message detail,
      Mirrored P (.binary r symbol left right) (.binary r' symbol left' right')
        (some (keepOperand ctx r message detail right))
        (some (keepOperand (ctx.moved source isFree) r' message detail right')) :=
    fun _ _ => .some (h.kept hright)
  refine .ite ?_ (.ite ?_ (.ite ?_ (.ite ?_ .none)))
  · exact .ite (hkeepLeft _ _) (.ite (hkeepRight _ _) .none)
  · exact .ite (hkeepLeft _ _) (.ite (.some h.replaced) .none)
  · exact .ite (hkeepLeft _ _) (.ite (hkeepRight _ _) (.ite (hkeepRight _ _)
      (.ite (hkeepLeft _ _) .none)))
  · exact .ite (hkeepLeft _ _) .none

theorem checkOrdering_mirrors :
    Mirrored P (.binary r symbol left right) (.binary r' symbol left' right')
      (checkOrdering ctx (.binary r symbol left right))
      (checkOrdering (ctx.moved source isFree) (.binary r' symbol left' right')) := by
  unfold checkOrdering
  dsimp only
  rw [hleft.twin.number?, hright.twin.number?]
  cases ordering? symbol with
  | none => exact .none
  | some compare =>
    cases left.number? with
    | none => exact .none
    | some a =>
      cases right.number? with
      | none => exact .none
      | some b => exact .some h.replaced

end

theorem checkNegation_mirrors {r r' : Range} {inner inner' : Expr}
    (h : (Expr.negate r inner).Twins place place' (.negate r' inner'))
    (hinner : Expr.Facing (.negate r inner) (.negate r' inner') inner inner') :
    Mirrored P (.negate r inner) (.negate r' inner') (checkNegation ctx (.negate r inner))
      (checkNegation (ctx.moved source isFree) (.negate r' inner')) := by
  have hstripped := hinner.stripParens
  have hbare := inner'.isBare_stripParens
  have hform := hstripped.twin.form_eq inner.isBare_stripParens hbare
  unfold checkNegation
  cases hx : inner.stripParens with
  | negate q value =>
    rw [hx] at hstripped
    rcases hstripped.of_negate hbare with ⟨q', value', hx', hvalue⟩
    dsimp only
    rw [hx, hx']
    exact .some (h.kept hvalue)
  | _ =>
    rw [hx] at hform
    dsimp only
    rw [hx]
    dsimp only
    split
    · rename_i heq
      rw [heq] at hform
      cases hform
    · exact .none

/-! ## Conditionals -/

/-- What is found in a conditional mirrors what is found in its twin. -/
theorem checkIf_mirrors {r r' : Range} {condition thenBranch elseBranch : Expr}
    {condition' thenBranch' elseBranch' : Expr}
    (h : (Expr.cond r condition thenBranch elseBranch).Twins place place'
      (.cond r' condition' thenBranch' elseBranch'))
    (hcondition : Expr.Facing (.cond r condition thenBranch elseBranch)
      (.cond r' condition' thenBranch' elseBranch') condition condition')
    (hthen : Expr.Facing (.cond r condition thenBranch elseBranch)
      (.cond r' condition' thenBranch' elseBranch') thenBranch thenBranch')
    (helse : Expr.Facing (.cond r condition thenBranch elseBranch)
      (.cond r' condition' thenBranch' elseBranch') elseBranch elseBranch') :
    Mirrored P (.cond r condition thenBranch elseBranch)
      (.cond r' condition' thenBranch' elseBranch')
      (checkIf ctx (.cond r condition thenBranch elseBranch))
      (checkIf (ctx.moved source isFree) (.cond r' condition' thenBranch' elseBranch')) := by
  unfold checkIf
  dsimp only
  rw [Context.bool?_moved, Context.areEqual_moved, hcondition.twin.bool?, hthen.twin.bool?,
    helse.twin.bool?, hthen.twin.areEqual ctx helse.twin]
  cases ctx.bool? condition with
  | some value =>
    cases value with
    | true => exact .some (h.kept hthen)
    | false => exact .some (h.kept helse)
  | none =>
    cases ctx.bool? thenBranch with
    | none => exact .ite (.some (h.kept hthen)) .none
    | some a =>
      cases ctx.bool? elseBranch with
      | none => cases a <;> exact .ite (.some (h.kept hthen)) .none
      | some b =>
        cases a <;> cases b
        · exact .ite (.some (h.kept hthen)) .none
        · exact .some h.replaced
        · exact .some (h.kept hcondition)
        · exact .ite (.some (h.kept hthen)) .none

/-! ## Cases -/

theorem touchesIgnoredType_erase (patterns : List Pattern) :
    touchesIgnoredType ctx (patterns.map Pattern.erase) = touchesIgnoredType ctx patterns := by
  simp only [touchesIgnoredType, List.any_map, Function.comp_def, Pattern.constructors_erase]

theorem ignoringConstructor?_erase (p : Pattern) :
    ignoringConstructor? ctx p.erase = ignoringConstructor? ctx p := by
  unfold ignoringConstructor?
  rw [p.stripParens_erase, ← p.erase_stripParens]
  cases hp : p.stripParens with
  | paren r inner => exact absurd hp (p.stripParens_ne_paren r inner)
  | ctor r name args => simp only [Pattern.erase, Pattern.allIgnoreValue_erase]
  | _ => simp only [Pattern.erase]

/-- Whether patterns cover all values is asked without places and parentheses. -/
theorem isExhaustive_erase (patterns : List Pattern) :
    isExhaustive ctx (patterns.map Pattern.erase) = isExhaustive ctx patterns := by
  have hall : (patterns.map Pattern.erase).mapM (ignoringConstructor? ctx) =
      patterns.mapM (ignoringConstructor? ctx) := by
    rw [List.mapM_map]
    congr 1
    funext p
    exact ignoringConstructor?_erase p
  simp only [isExhaustive, coversType, hall, List.any_map, Function.comp_def,
    Pattern.isCatchAll_erase]

theorem boolPattern?_erase (p : Pattern) : boolPattern? ctx p.erase = boolPattern? ctx p := by
  unfold boolPattern?
  rw [p.stripParens_erase, ← p.erase_stripParens]
  cases hp : p.stripParens with
  | paren r inner => exact absurd hp (p.stripParens_ne_paren r inner)
  | ctor r name args => cases args <;> simp only [Pattern.erase, Pattern.eraseAll]
  | _ => simp only [Pattern.erase]

/-- A case becomes a conditional by edits that spare its bodies. -/
theorem caseAsIf_spares {whole : Range} {scrutinee : Expr} {first second : Branch}
    (he : Expr.Nested place (.case whole scrutinee [first, second])) (condition : String) :
    Spares (.case whole scrutinee [first, second]) [first.body, second.body]
      (caseAsIf ctx whole condition first.body second.body) := by
  have hfirst : first.body.PartOf place whole := he.children_part (by simp [Expr.children])
  have hsecond : second.body.PartOf place whole := he.children_part (by simp [Expr.children])
  have hpairs := he.children_pairwise
  simp only [Expr.children, List.map_cons, List.map_nil, List.pairwise_cons, List.mem_cons,
    List.not_mem_nil, or_false, forall_eq_or_imp, forall_eq] at hpairs
  have hfirstLe := hfirst.1.1.le
  have hsecondLe := hsecond.1.1.le
  have hfirstStop := hfirst.1.2.2
  have hsecondStop := hsecond.1.2.2
  apply spares_of_apart he
  · have hclosing : ∀ edit ∈ (if ctx.isFree then [] else [Edit.insert whole.stop ")"]),
        edit.range.start = whole.stop := by
      intro edit hedit
      split at hedit
      · cases hedit
      · rw [List.mem_singleton.mp hedit]
        rfl
    intro k hk
    have hk : k = first.body ∨ k = second.body := by simpa using hk
    have hstop : k.range.stop ≤ whole.stop := by rcases hk with rfl | rfl <;> assumption
    refine ⟨by rcases hk with rfl | rfl; exacts [hfirst.1.1, hsecond.1.1], ?_⟩
    unfold caseAsIf
    simp only [List.cons_append, List.nil_append, List.forall_mem_cons]
    refine ⟨.inl ?_, ?_, fun edit hedit => .inr ((hclosing edit hedit).symm ▸ hstop)⟩
    · change first.body.range.start ≤ k.range.start
      rcases hk with rfl | rfl
      · exact le_rfl
      · exact hfirstLe.trans hpairs.2.1
    · rcases hk with rfl | rfl
      · exact .inr le_rfl
      · exact .inl le_rfl
  · intro n hn hlt hout
    simp only [List.forall_mem_cons, List.not_mem_nil, false_implies, implies_true,
      and_true] at hout
    rw [Expr.children, List.flatMap_cons] at hn
    rcases List.mem_append.mp hn with hn | hn
    · -- the scrutinee stands before the first body, where the condition is written
      have hlies := (he.children List.mem_cons_self).1.nodes (Expr.mem_nodes_of_mem_bareNodes hn)
      have hscrutinee := (he.children List.mem_cons_self).2.1
      exact hit_of_covers List.mem_cons_self hlt (hscrutinee.trans hlies.2.1)
        (hlies.2.2.trans hpairs.1.1)
    · have hn : n ∈ first.body.bareNodes ∨ n ∈ second.body.bareNodes := by simpa using hn
      exact absurd hn (not_or.mpr hout)

section

variable {r r' : Range} {scrutinee scrutinee' : Expr} {branches branches' : List Branch}
  (h : (Expr.case r scrutinee branches).Twins place place' (.case r' scrutinee' branches'))
  (hbranches : List.Forall₂ (fun b b' => b.pattern.erase = b'.pattern.erase ∧
    Expr.Facing (.case r scrutinee branches) (.case r' scrutinee' branches') b.body b'.body)
    branches branches')
include h hbranches

/-- Branches with equal bodies are found in both twins. -/
theorem checkSameBodies_mirrors :
    Mirrored P (.case r scrutinee branches) (.case r' scrutinee' branches')
      (checkSameBodies ctx r scrutinee branches)
      (checkSameBodies (ctx.moved source isFree) r' scrutinee' branches') := by
  have hpatterns : (branches.map Branch.pattern).map Pattern.erase =
      (branches'.map Branch.pattern).map Pattern.erase := by
    rw [← List.forall₂_eq_eq_eq]
    simp only [List.forall₂_map_left_iff, List.forall₂_map_right_iff]
    exact hbranches.imp fun _ _ hb => hb.1
  have hignored : touchesIgnoredType (ctx.moved source isFree) (branches'.map Branch.pattern) =
      touchesIgnoredType ctx (branches.map Branch.pattern) := by
    rw [← touchesIgnoredType_erase, ← hpatterns,
      ← touchesIgnoredType_erase (branches.map Branch.pattern)]
    rfl
  have hexhaustive : isExhaustive (ctx.moved source isFree) (branches'.map Branch.pattern) =
      isExhaustive ctx (branches.map Branch.pattern) := by
    rw [← isExhaustive_erase, ← hpatterns, ← isExhaustive_erase (branches.map Branch.pattern)]
    rfl
  have hbinds : (branches'.map Branch.pattern).all (fun p => p.boundVars.isEmpty) =
      (branches.map Branch.pattern).all fun p => p.boundVars.isEmpty := by
    rw [List.all_map, List.all_map]
    refine all_eq_all hbranches fun b b' hb => ?_
    rw [Function.comp_apply, Function.comp_apply, ← b'.pattern.boundVars_erase, ← hb.1,
      b.pattern.boundVars_erase]
  unfold checkSameBodies
  cases hbranches with
  | nil => exact .none
  | @cons first first' others others' hfirst hothers =>
    have hequal : others'.all (fun b => (ctx.moved source isFree).areEqual first'.body b.body) =
        others.all fun b => ctx.areEqual first.body b.body := by
      refine all_eq_all hothers fun b b' hb => ?_
      rw [Context.areEqual_moved, hfirst.2.twin.areEqual ctx hb.2.twin]
    dsimp only
    rw [hequal, hbinds, hignored, hexhaustive]
    exact .ite (.some (h.kept hfirst.2)) .none

/-- A case of booleans is found in both twins. -/
theorem checkBooleanCase_mirrors :
    Mirrored P (.case r scrutinee branches) (.case r' scrutinee' branches')
      (checkBooleanCase ctx r scrutinee branches)
      (checkBooleanCase (ctx.moved source isFree) r' scrutinee' branches') := by
  have hmoved : boolPattern? (ctx.moved source isFree) = boolPattern? ctx := rfl
  unfold checkBooleanCase
  cases hbranches with
  | nil => exact .none
  | @cons first first' _ _ hfirst hmore =>
    cases hmore with
    | nil => exact .none
    | @cons second second' _ _ hsecond hmore =>
      cases hmore with
      | cons => exact .none
      | nil =>
        dsimp only
        rw [hmoved, ← boolPattern?_erase first'.pattern, ← hfirst.1, boolPattern?_erase,
          ← boolPattern?_erase second'.pattern, ← hsecond.1, boolPattern?_erase]
        cases boolPattern? ctx first.pattern with
        | none => exact .none
        | some a =>
          cases a with
          | anything => cases boolPattern? ctx second.pattern <;> exact .none
          | exactly value =>
            cases boolPattern? ctx second.pattern with
            | none => exact .none
            | some other =>
              exact .ite .none (.some (h.mirrors_of_spares rfl
                (fun _ => .cons hfirst.2 (.cons hsecond.2 .nil)) (caseAsIf_spares h.nested _)
                (caseAsIf_spares h.nested' _)))

theorem checkCase_mirrors :
    Mirrored P (.case r scrutinee branches) (.case r' scrutinee' branches')
      (checkCase ctx (.case r scrutinee branches))
      (checkCase (ctx.moved source isFree) (.case r' scrutinee' branches')) :=
  .or (checkSameBodies_mirrors source isFree h hbranches)
    (checkBooleanCase_mirrors source isFree h hbranches)

end

/-! ## Record updates -/

/-- A setter that changes nothing does so in the twin of the update. -/
theorem isSelfAssignment_twin {base : String} {s s' : Setter} (hfield : s.field.value = s'.field.value)
    (hvalue : s.value.Twin s'.value) : isSelfAssignment base s' = isSelfAssignment base s := by
  have herase : ∀ s : Setter, isSelfAssignment base s =
      isSelfAssignment base ⟨⟨s.field.value, default⟩, s.value.erase⟩ := by
    intro s
    rcases s with ⟨field, value⟩
    unfold isSelfAssignment
    rw [Setter.value, Setter.value, value.stripParens_erase, ← value.erase_stripParens]
    cases hv : value.stripParens with
    | paren r inner => exact absurd hv (value.stripParens_ne_paren r inner)
    | access r owner name =>
      simp only [Expr.erase]
      rw [owner.stripParens_erase, ← owner.erase_stripParens]
      cases ho : owner.stripParens with
      | paren r inner => exact absurd ho (owner.stripParens_ne_paren r inner)
      | _ => simp only [Expr.erase, Setter.field]
    | _ => simp only [Expr.erase]
  rw [herase s, herase s', hfield, hvalue.erase]

/-- Taking setters out of an update spares the values of the others. -/
theorem setters_spared {r : Range} {base : Located String} {setters : List Setter}
    (he : Expr.Nested place (.update r base setters)) {drops : Setter → Bool}
    (hkeeps : ∃ s ∈ setters, drops s = false) :
    Spares (.update r base setters) ((setters.filter (!drops ·)).map Setter.value)
      (removeItems (setters.map fun s => (s.range, drops s))) := by
  have hnested := he
  rw [Expr.Nested] at hnested
  rcases hnested with ⟨-, -, -, opening, closing, hopening, hsetters, hclosing⟩
  have hline := (Expr.nestedSetters_iff.mp hsetters).between
  have hitems : Between Prod.fst (fun i : Range × Bool => i.1.Proper place) opening
      (setters.map fun s => (s.range, drops s)) closing :=
    hline.map _ (fun _ _ => rfl) fun _ h => h.proper
  have hso : ItemsSoFar place opening opening none none := ⟨le_rfl, by simp, by simp, by simp⟩
  -- the value of a setter ends where the setter does
  have hvalue : ∀ s ∈ setters, s.value.Nested place ∧ s.range.start ≤ s.value.range.start ∧
      s.range.stop = s.value.range.stop := by
    intro s hs
    have hok := hline.ok_of_mem hs
    have hfield := hok.1.le
    have hgap := hok.2.1
    rw [hok.range_eq]
    exact ⟨hok.2.2, show s.field.range.start ≤ s.value.range.start by order, rfl⟩
  apply spares_of_apart he
  · intro k hk
    rcases List.mem_map.mp hk with ⟨s, hs, rfl⟩
    rcases List.mem_filter.mp hs with ⟨hs, hkept⟩
    rcases hvalue s hs with ⟨hnested, hstart, hstop⟩
    refine ⟨hnested, fun edit hedit => ?_⟩
    have hmem : (s.range, false) ∈ setters.map fun s => (s.range, drops s) :=
      List.mem_map.mpr ⟨s, hs, by simpa using hkept⟩
    rw [← hstop]
    exact (removeItemsFrom_apart hso hitems hmem edit hedit).imp_left (·.trans hstart)
  · intro n hn hlt hout
    rcases List.mem_flatMap.mp hn with ⟨x, hx, hnx⟩
    rcases List.mem_map.mp hx with ⟨s, hs, rfl⟩
    rcases hvalue s hs with ⟨hnested, hstart, hstop⟩
    cases hdrop : drops s with
    | false =>
      exact absurd hnx (hout s.value (List.mem_map_of_mem (List.mem_filter.mpr
        ⟨hs, by simp [hdrop]⟩)))
    | true =>
      have hmem : (s.range, true) ∈ setters.map fun s => (s.range, drops s) :=
        List.mem_map.mpr ⟨s, hs, by rw [hdrop]⟩
      have hkept : ∃ i ∈ setters.map fun s => (s.range, drops s), i.2 = false := by
        rcases hkeeps with ⟨y, hy, hkeep⟩
        exact ⟨_, List.mem_map_of_mem hy, hkeep⟩
      rcases removeItemsFrom_covers hso hitems (.inr hkept) (.inl ⟨hmem, rfl⟩) with
        ⟨edit, hedit, hstart', hstop'⟩
      have hlies := hnested.nodes (Expr.mem_nodes_of_mem_bareNodes hnx)
      exact hit_of_covers hedit hlt (hstart'.trans (hstart.trans hlies.2.1))
        (hlies.2.2.trans (hstop ▸ hstop'))

/-- What is found in a record update mirrors what is found in its twin. -/
theorem checkUpdate_mirrors {r r' : Range} {base base' : Located String}
    {setters setters' : List Setter}
    (h : (Expr.update r base setters).Twins place place' (.update r' base' setters'))
    (hbase : base.value = base'.value)
    (hsetters : List.Forall₂ (fun s s' => s.field.value = s'.field.value ∧
      Expr.Facing (.update r base setters) (.update r' base' setters') s.value s'.value)
      setters setters') :
    Mirrored P (.update r base setters) (.update r' base' setters')
      (checkUpdate ctx (.update r base setters))
      (checkUpdate (ctx.moved source isFree) (.update r' base' setters')) := by
  have hself : ∀ s s' : Setter, s.field.value = s'.field.value ∧
      Expr.Facing (.update r base setters) (.update r' base' setters') s.value s'.value →
      isSelfAssignment base.value s' = isSelfAssignment base.value s :=
    fun _ _ hs => isSelfAssignment_twin hs.1 hs.2.twin
  have hfind := rel_find? hsetters hself
  have hall := all_eq_all hsetters hself
  unfold checkUpdate
  dsimp only
  rw [← hbase, hall]
  generalize setters.find? (isSelfAssignment base.value) = o,
    setters'.find? (isSelfAssignment base.value) = o' at hfind ⊢
  cases hfind with
  | none => exact .none
  | some hfirst =>
    dsimp only
    split
    · exact .some (h.mirrors_whole rfl rfl rfl rfl rfl)
    · rename_i hnot
      have hkeeps : ∃ s ∈ setters, isSelfAssignment base.value s = false := by
        rw [List.all_eq_true] at hnot
        push Not at hnot
        simpa using hnot
      have hkeeps' : ∃ s ∈ setters', isSelfAssignment base.value s = false := by
        rw [← hall, List.all_eq_true] at hnot
        push Not at hnot
        simpa using hnot
      refine .some (h.mirrors_of_spares rfl (fun _ => ?_) (setters_spared h.nested hkeeps)
        (setters_spared h.nested' hkeeps'))
      rw [List.forall₂_map_left_iff, List.forall₂_map_right_iff]
      refine (List.rel_filter (fun s s' hs => ?_) hsetters).imp fun _ _ hs => hs.2
      dsimp only
      rw [hself s s' hs]

/-! ## Applied functions -/

section

variable {r : Range} {name : Range} {symbol : String} {left right : Expr}
  (he : Expr.Nested place (.app r (.operatorFn name symbol) [left, right]))
include he

/-- Writing an operator between its operands spares both of them. -/
theorem operands_spared (opening : Edit) (hopening : opening.range = ⟨name.start, left.range.start⟩)
    (text : String) (closing : List Edit)
    (hclosing : ∀ edit ∈ closing, edit.range.start = right.range.stop) :
    Spares (.app r (.operatorFn name symbol) [left, right]) [left, right]
      (opening :: .replace ⟨left.range.stop, right.range.start⟩ text :: closing) := by
  have hpairs := he.children_pairwise
  simp only [Expr.children, List.pairwise_cons, List.mem_cons, List.not_mem_nil, or_false,
    forall_eq_or_imp, forall_eq] at hpairs
  have hname : name.Proper place := (he.children List.mem_cons_self).1
  have hleft := (he.children (c := left) (by simp [Expr.children])).1
  have hright := (he.children (c := right) (by simp [Expr.children])).1
  have hleftLe := hleft.le
  have hrightLe := hright.le
  have hgap : name.stop ≤ left.range.start := hpairs.1.1
  have hmiddle := hpairs.2.1
  apply spares_of_apart he
  · simp only [List.forall_mem_cons, List.not_mem_nil, false_implies, implies_true, and_true]
    refine ⟨⟨hleft, .inl ?_, .inr le_rfl, fun edit hedit => .inr ?_⟩, hright, .inl ?_, .inl le_rfl,
      fun edit hedit => .inr ?_⟩
    · rw [hopening]
    · rw [hclosing edit hedit]
      order
    · rw [hopening]
      exact show left.range.start ≤ right.range.start by order
    · rw [hclosing edit hedit]
  · intro n hn hlt hout
    simp only [List.forall_mem_cons, List.not_mem_nil, false_implies, implies_true,
      and_true] at hout
    rcases List.mem_flatMap.mp hn with ⟨x, hx, hnx⟩
    simp only [Expr.children, List.mem_cons, List.not_mem_nil, or_false] at hx
    rcases hx with rfl | rfl | rfl
    · -- the operator stands before the left operand and is taken out
      have hlies := (he.children List.mem_cons_self).1.nodes (Expr.mem_nodes_of_mem_bareNodes hnx)
      refine hit_of_covers List.mem_cons_self hlt ?_ ?_
      · rw [hopening]
        exact hlies.2.1
      · rw [hopening]
        exact hlies.2.2.trans hgap
    · exact absurd hnx hout.1
    · exact absurd hnx hout.2

end

/-- Only an operator that is given both operands is found. -/
theorem checkOperatorFunction_eq_none {r : Range} {fn : Expr} {args : List Expr}
    (h : fn.isOperatorFn = false ∨ args.length ≠ 2) :
    checkOperatorFunction ctx (.app r fn args) = none := by
  unfold checkOperatorFunction
  split
  · rename_i heq
    cases heq
    rcases h with h | h
    · cases h
    · exact absurd rfl h
  · rfl

theorem checkOperatorFunction_mirrors {r r' : Range} {fn fn' : Expr} {args args' : List Expr}
    (h : (Expr.app r fn args).Twins place place' (.app r' fn' args'))
    (hfn : Expr.Facing (.app r fn args) (.app r' fn' args') fn fn')
    (hargs : List.Forall₂ (Expr.Facing (.app r fn args) (.app r' fn' args')) args args') :
    Mirrored P (.app r fn args) (.app r' fn' args') (checkOperatorFunction ctx (.app r fn args))
      (checkOperatorFunction (ctx.moved source isFree) (.app r' fn' args')) := by
  have hlength := hargs.length_eq
  by_cases htwo : args.length = 2
  · obtain ⟨left, right, rfl⟩ := List.length_eq_two.mp htwo
    obtain ⟨left', right', rfl⟩ := List.length_eq_two.mp (hlength.symm.trans htwo)
    -- twins write the operator with the same parentheses
    have hgrouping := (h.twin.parts h.bare h.bare').1
    simp only [Expr.grouping, List.cons.injEq, and_true] at hgrouping
    cases fn with
    | operatorFn name symbol =>
      cases fn' with
      | operatorFn name' symbol' =>
        obtain rfl : symbol = symbol' := by
          simpa [Expr.erase] using hfn.twin.erase
        refine .some (h.mirrors_of_spares rfl (fun _ => hargs) (operands_spared h.nested _ ?_ _ _ ?_)
          (operands_spared h.nested' _ ?_ _ _ ?_))
        · split <;> rfl
        · intro edit hedit
          split at hedit
          · cases hedit
          · rw [List.mem_singleton.mp hedit]
            rfl
        · split <;> rfl
        · intro edit hedit
          split at hedit
          · cases hedit
          · rw [List.mem_singleton.mp hedit]
            rfl
      | _ => cases hgrouping
    | _ =>
      rw [checkOperatorFunction_eq_none (.inl rfl), checkOperatorFunction_eq_none (.inl hgrouping.symm)]
      exact .none
  · rw [checkOperatorFunction_eq_none (.inr htwo), checkOperatorFunction_eq_none (.inr (hlength ▸ htwo))]
    exact .none

theorem ignoredArgument?_twin {param param' : Pattern} {argument argument' : Expr}
    (hparam : param.erase = param'.erase) (hargument : argument.Twin argument') :
    ignoredArgument? param' argument' = ignoredArgument? param argument := by
  have herase : ∀ (p : Pattern) (a : Expr),
      ignoredArgument? p a = ignoredArgument? p.erase a.erase := by
    intro p a
    unfold ignoredArgument?
    rw [p.stripParens_erase, a.stripParens_erase, ← p.erase_stripParens, ← a.erase_stripParens]
    cases hp : p.stripParens with
    | paren r inner => exact absurd hp (p.stripParens_ne_paren r inner)
    | unit r =>
      cases ha : a.stripParens with
      | paren r inner => exact absurd ha (a.stripParens_ne_paren r inner)
      | _ => simp only [Pattern.erase, Expr.erase]
    | _ => simp only [Pattern.erase]
  rw [herase param, herase param', hparam, hargument.erase]

/-- Taking out a parameter and the argument that it ignores spares the body and the other
arguments. -/
theorem dropArgument_spares {r lambdaRange : Range} {fn argument body : Expr}
    {params : List Pattern} {moreArgs : List Expr}
    (he : Expr.Nested place (.app r fn (argument :: moreArgs)))
    (hlambda : fn.stripParens = .lambda lambdaRange params body) {dropParam : Range}
    (hstart : lambdaRange.start ≤ dropParam.start) (hlt : dropParam.start < dropParam.stop)
    (hstop : dropParam.stop ≤ body.range.start) :
    Spares (.app r fn (argument :: moreArgs)) (body :: moreArgs)
      [.remove dropParam, .remove ⟨fn.range.stop, argument.range.stop⟩] := by
  have hpairs := he.children_pairwise
  simp only [Expr.children, List.pairwise_cons, List.mem_cons, forall_eq_or_imp] at hpairs
  have hfn := (he.children (c := fn) List.mem_cons_self).1
  have hargument := (he.children (c := argument) (by simp [Expr.children])).1
  have hmore : ∀ a ∈ moreArgs, a.Nested place := fun a ha =>
    (he.children (c := a) (by simp [Expr.children, ha])).1
  have hargumentLe := hargument.le
  have hlies := Expr.Lies.stripParens ⟨hfn, le_rfl, le_rfl⟩
  rw [hlambda] at hlies
  rcases hlies with ⟨hnested, hlambdaStart, hlambdaStop⟩
  have hbody := hnested.children (c := body) List.mem_cons_self
  have hbodyStop : body.range.stop ≤ lambdaRange.stop := hbody.2.2
  have hbodyLe := hbody.1.le
  have hlambdaStop : lambdaRange.stop ≤ fn.range.stop := hlambdaStop
  apply spares_of_apart he
  · -- what is left lies beside both edits
    simp only [List.forall_mem_cons, List.not_mem_nil, false_implies, implies_true, and_true]
    refine ⟨⟨hbody.1, .inl hstop, .inr ?_⟩, fun a ha => ⟨hmore a ha, .inl ?_, .inl ?_⟩⟩
    · exact show body.range.stop ≤ fn.range.stop by order
    · have hle := hpairs.1.2 a ha
      exact show dropParam.stop ≤ a.range.start by order
    · exact hpairs.2.1 a ha
  · intro n hn hproper hout
    simp only [List.forall_mem_cons] at hout
    rcases List.mem_flatMap.mp hn with ⟨x, hx, hnx⟩
    simp only [Expr.children, List.mem_cons] at hx
    rw [hit_cons, hit_cons]
    -- the lambda itself holds the parameter, and the argument is taken out as a whole
    rcases hx with rfl | rfl | hx
    · rw [← Expr.bareNodes_stripParens, hlambda, Expr.bareNodes_eq rfl, Expr.children,
        List.flatMap_singleton] at hnx
      rcases List.mem_cons.mp hnx with rfl | hnx
      · exact .inl ⟨show dropParam.start < lambdaRange.stop by order,
          show lambdaRange.start < dropParam.stop by order⟩
      · exact absurd hnx hout.1
    · rcases hargument.nodes (Expr.mem_nodes_of_mem_bareNodes hnx) with ⟨-, hstart', hstop'⟩
      have hgap := hpairs.1.1
      exact .inr (.inl ⟨show fn.range.stop < n.range.stop by order,
        show n.range.start < x.range.stop by order⟩)
    · exact absurd hnx (hout.2 x hx)

/-- The parameters of a function stand between its start and its body, one behind the other. -/
theorem params_between {lambdaRange : Range} {params : List Pattern} {body : Expr}
    (h : Expr.Nested place (.lambda lambdaRange params body)) :
    Between Pattern.range (Pattern.Nested place) lambdaRange.start params body.range.start := by
  rw [Expr.Nested] at h
  rcases h with ⟨-, -, opening, last, hopening, hparams, hlast, -, -⟩
  rw [Pattern.nestedAll_iff] at hparams
  exact hparams.between.mono hopening.le hlast

/-- The parameter goes with the function, if it is the only one, or else by itself. -/
theorem dropParam_spares {r lambdaRange : Range} {fn argument body : Expr} {param : Pattern}
    {moreParams : List Pattern} {moreArgs : List Expr}
    (he : Expr.Nested place (.app r fn (argument :: moreArgs)))
    (hlambda : fn.stripParens = .lambda lambdaRange (param :: moreParams) body) :
    Spares (.app r fn (argument :: moreArgs)) (body :: moreArgs)
        [.remove ⟨lambdaRange.start, body.range.start⟩,
          .remove ⟨fn.range.stop, argument.range.stop⟩] ∧
      ∀ next ∈ moreParams, Spares (.app r fn (argument :: moreArgs)) (body :: moreArgs)
        [.remove ⟨param.range.start, next.range.start⟩,
          .remove ⟨fn.range.stop, argument.range.stop⟩] := by
  have hle : ∀ p : Pattern, p.Nested place → p.range.start ≤ p.range.stop := fun _ h => h.proper.le
  have hfn := (he.children (c := fn) List.mem_cons_self).1
  have hlies := Expr.Lies.stripParens ⟨hfn, le_rfl, le_rfl⟩
  rw [hlambda] at hlies
  have hline := params_between hlies.1
  rcases between_cons.mp hline with ⟨hstart, hparam, hmore⟩
  have hparamLt := hparam.proper.lt
  have hbody := hmore.le hle
  constructor
  · exact dropArgument_spares he hlambda le_rfl
      (show lambdaRange.start < body.range.start by order) le_rfl
  · intro next hnext
    have hnextLe := (hmore.ok_of_mem hnext).proper.le
    have hnextStart := hmore.start_le hle hnext
    have hnextStop := hmore.le_stop hle hnext
    exact dropArgument_spares he hlambda hstart
      (show param.range.start < next.range.start by order)
      (show next.range.start ≤ body.range.start by order)

/-- What is found in an applied function mirrors what is found in its twin. -/
theorem checkAppliedLambda_mirrors {r r' : Range} {fn fn' : Expr} {args args' : List Expr}
    (h : (Expr.app r fn args).Twins place place' (.app r' fn' args'))
    (hfn : Expr.Facing (.app r fn args) (.app r' fn' args') fn fn')
    (hargs : List.Forall₂ (Expr.Facing (.app r fn args) (.app r' fn' args')) args args') :
    Mirrored P (.app r fn args) (.app r' fn' args') (checkAppliedLambda ctx (.app r fn args))
      (checkAppliedLambda (ctx.moved source isFree) (.app r' fn' args')) := by
  have hstripped := hfn.stripParens
  have hbare := fn'.isBare_stripParens
  have hform := hstripped.twin.form_eq fn.isBare_stripParens hbare
  cases hargs with
  | nil => exact .none
  | @cons argument argument' moreArgs moreArgs' hargument hmore =>
    unfold checkAppliedLambda
    dsimp only
    cases hx : fn.stripParens with
    | lambda q params body =>
      rw [hx] at hstripped
      rcases hstripped.of_lambda hbare with ⟨q', params', body', hx', hparams, hbody⟩
      rw [hx']
      cases params with
      | nil =>
        cases params' with
        | nil => exact .none
        | cons => cases hparams
      | cons param moreParams =>
        cases params' with
        | nil => cases hparams
        | cons param' moreParams' =>
          simp only [Pattern.eraseAll, List.cons.injEq] at hparams
          dsimp only
          rw [ignoredArgument?_twin hparams.1 hargument.twin]
          cases ignoredArgument? param argument with
          | none => exact .none
          | some message =>
            have hspares := dropParam_spares h.nested hx
            have hspares' := dropParam_spares h.nested' hx'
            -- a parameter beside others goes alone, the last one takes the head of the lambda with
            -- it; without more arguments, only the body is left of the whole call
            cases moreParams with
            | nil =>
              cases moreParams' with
              | cons => cases hparams.2
              | nil =>
                cases hmore with
                | nil => exact .some (h.kept hbody)
                | cons ha hmore =>
                  exact .some (h.mirrors_of_spares rfl (fun _ => .cons hbody (.cons ha hmore))
                    hspares.1 hspares'.1)
            | cons next moreParams =>
              cases moreParams' with
              | nil => cases hparams.2
              | cons next' moreParams' =>
                exact .some (h.mirrors_of_spares rfl (fun _ => .cons hbody hmore)
                  (hspares.2 next List.mem_cons_self) (hspares'.2 next' List.mem_cons_self))
    | _ =>
      rw [hx] at hform
      dsimp only
      split
      · rename_i heq
        rw [heq] at hform
        cases hform
      · exact .none

end Terse.Rule
