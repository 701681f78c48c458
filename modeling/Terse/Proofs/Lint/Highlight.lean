import Terse.Proofs.Lint.Walk
import Terse.Proofs.Rule.CallHighlight

/-!
# What findings point at

A finding points at the part of its node that is wrong: the name of a function, an operand, a
parameter, a setter. That part need not start where the node does, so other parts of the node may
stand before it.
-/

namespace Terse

variable {place : Location → Prop}

/-! ## What rules point at -/

/-- What a finding at a node points at, or where that starts. -/
inductive Finding.Points (ctx : Context) (f : Finding) : Expr → Prop where
  /-- The node as a whole, or the front part of it. -/
  | front {e : Expr} (hform : (e.form == .app) = false) (h : f.range.start = e.range.start) :
    Points ctx f e
  /-- A call of `not` as a whole. -/
  | negation {e : Expr} {call : Call} (hcall : Call.ofExpr? ctx e = some call)
    (hnot : call.isOf Core.basics "not" = true) (h : f.range = call.range) : Points ctx f e
  /-- An operator in parentheses that is applied. -/
  | operator {r name : Range} {symbol : String} {args : List Expr} (h : f.range = name) :
    Points ctx f (.app r (.operatorFn name symbol) args)
  /-- The first parameter of a lambda that is applied. -/
  | parameter {r lambdaRange : Range} {fn body : Expr} {args : List Expr} {param : Pattern}
    {more : List Pattern} (hfn : fn.stripParens = .lambda lambdaRange (param :: more) body)
    (h : f.range = param.range) : Points ctx f (.app r fn args)
  /-- The name of the function of a call. -/
  | name {e : Expr} {call : Call} (hcall : Call.ofExpr? ctx e = some call)
    (hnot : call.isOf Core.basics "not" = true → call.args.length ≤ 1)
    (h : f.range = call.fnRange) : Points ctx f e
  /-- An element of a list that effects are batched in. -/
  | element {e : Expr} {call : Call} (hcall : Call.ofExpr? ctx e = some call)
    (hrule : f.rule = .cmd ∨ f.rule = .sub) (h : Rule.Effect.PointsAtElement call f) :
    Points ctx f e
  /-- The right operand of an operator. -/
  | operand {r : Range} {symbol : String} {left right : Expr} (h : f.range = right.range) :
    Points ctx f (.binary r symbol left right)
  /-- A term of a chain, and maybe the next one. The fix changes something in all that begins before
  the term and ends behind its start. -/
  | term {e t : Expr} {chain : Chain} (hchain : Chain.ofExpr? e = some chain)
    (ht : t ∈ chain.terms) (h : f.range.start = t.range.start)
    (hrewrites : ∀ r : Range, chain.range.start ≤ r.start → r.start < t.range.start →
      t.range.start < r.stop → f.Rewrites r) : Points ctx f e
  /-- A setter of a record update. -/
  | setter {r : Range} {base : Located String} {setters : List Setter} {s : Setter}
    (hs : s ∈ setters) (h : f.range = s.range) : Points ctx f (.update r base setters)

/-- Whatever the rule finds at a nested node points at something. -/
def Rule.Points (place : Location → Prop) (rule : Rule) : Prop :=
  ∀ ctx e, e.Nested place → Found (fun f => f.Points ctx e) (rule.check ctx e)

/-- Two ranges overlap when each starts before the other stops. -/
theorem Range.overlaps_of_lt {a b : Range} (ha : a.start < a.stop) (hb : b.start < b.stop)
    (h : a.start < b.stop) (h' : b.start < a.stop) : a.overlaps b = true := by
  simp [overlaps, isEmpty, not_le.mpr ha, not_le.mpr hb, h, h']

/-- Keeping a part of a node changes something in all that begins in the node before the part and
ends behind its start. -/
theorem Finding.rewrites_keepOnly {f : Finding} {ctx : Context} {whole : Range} {kept : Expr}
    (hf : f.edits = ctx.keepOnly whole kept) {r : Range} (hstart : whole.start ≤ r.start)
    (hbefore : r.start < kept.range.start) (hbehind : whole.start < r.stop)
    (hr : r.start < r.stop) : f.Rewrites r := by
  have hgap : whole.start < kept.range.start := hstart.trans_lt hbefore
  rcases ctx.exists_keepOnly_before hgap with ⟨edit, hedit, hrange⟩
  rw [← hf] at hedit
  refine ⟨_, List.mem_map_of_mem hedit, ?_⟩
  rw [hrange]
  exact Range.overlaps_of_lt hgap hr hbehind hbefore

/-! ### Chains -/

namespace Chain.Fills

variable {c : Chain} (h : c.Fills place) {t : Expr}
include h

/-- Taking out terms changes something in all that begins before the first of them and ends behind
its start. -/
theorem removeTerms_rewrites {f : Finding} {first last : Nat} {replacement : String}
    (hf : f.edits = c.removeTerms first last replacement) (hle : first ≤ last)
    (hlast : last < c.terms.length) (ht : c.terms[first]? = some t) {r : Range}
    (hstart : c.range.start ≤ r.start) (hbefore : r.start < t.range.start)
    (hbehind : t.range.start < r.stop) : f.Rewrites r := by
  have htLies := h.term_lies (List.mem_of_getElem? ht)
  have hr : r.start < r.stop := hbefore.trans hbehind
  have hlt := htLies.1.proper.lt
  have hstop := htLies.2.2
  -- one edit is enough
  have hone : ∀ {edits : List Edit} {edit : Edit}, f.edits = edits → edit ∈ edits →
      edit.range.start < edit.range.stop → edit.range.start < r.stop → r.start < edit.range.stop →
      f.Rewrites r := by
    rintro edits edit rfl hmem hproper hleft hright
    exact ⟨_, List.mem_map_of_mem hmem, Range.overlaps_of_lt hproper hr hleft hright⟩
  unfold removeTerms at hf
  split at hf
  · exact hone hf List.mem_cons_self h.range.lt (show c.range.start < r.stop by order)
      (show r.start < c.range.stop by order)
  · rename_i hall
    split at hf
    · rename_i next start hnext hstart'
      obtain rfl := Option.some.inj (hstart'.symm.trans ht)
      have hgap := h.stop_le_start hstart' hnext (by omega)
      exact hone hf List.mem_cons_self (show start.range.start < next.range.start by order)
        hbehind (show r.start < next.range.start by order)
    · -- behind the last of the terms there is nothing, so there is a term before the first
      rename_i stop before hnone hend hbefore'
      rw [List.getElem?_eq_none_iff] at hnone
      have hgap := h.stop_le_start hbefore' ht (by omega)
      have hendLies := h.term_lies (List.mem_of_getElem? hend)
      have hendLt := hendLies.1.proper.lt
      have hreach : t.range.stop ≤ stop.range.stop := by
        rcases Nat.lt_or_eq_of_le hle with hlt' | rfl
        · have hgap' := h.stop_le_start ht hend hlt'
          order
        · obtain rfl := Option.some.inj (ht.symm.trans hend)
          exact le_rfl
      exact hone hf List.mem_cons_self (show before.range.stop < stop.range.stop by order)
        (show before.range.stop < r.stop by order) (show r.start < stop.range.stop by order)
    · rename_i hnext hnone
      have hend := List.getElem?_eq_getElem hlast
      cases hnext' : c.terms[last + 1]? with
      | some next => exact absurd ht (hnext next _ hnext')
      | none =>
        have hbefore' := List.getElem?_eq_getElem (show first - 1 < c.terms.length by omega)
        exact absurd hbefore' (hnone _ _ hnext' hend)

end Chain.Fills

/-! ### Operators, conditionals and cases -/

namespace Rule

/-- What is found in a boolean operation points at all of it or at an operand. -/
theorem booleanOperators_points : booleanOperators.Points place := by
  intro ctx e he
  change Found _ (checkBooleanOperator ctx e)
  unfold checkBooleanOperator
  split
  · rename_i whole symbol left right
    -- the left operand starts the node
    have hleft : left.range.start = whole.start := by
      rw [Expr.Nested] at he
      exact he.2.1.symm
    have hknown : ∀ {absorbing value : Bool} {known other : Expr},
        known = left ∨ known = right →
        (knownOperand ctx whole absorbing value known other).Points ctx
          (.binary whole symbol left right) := by
      intro absorbing value known other hside
      unfold knownOperand
      split
      · exact .front rfl rfl
      · rcases hside with rfl | rfl
        · exact .front rfl hleft
        · exact .operand rfl
    split
    · exact found_none
    · split
      · exact found_some.mpr (hknown (.inl rfl))
      · exact found_some.mpr (hknown (.inr rfl))
      · exact found_ite (fun _ => found_some.mpr (.operand rfl)) fun _ => found_none
  · exact found_none

/-- What is found in a comparison for equality points at all of it. -/
theorem equality_points : equality.Points place := by
  intro ctx e he
  change Found _ (checkEquality ctx e)
  unfold checkEquality
  split
  · have hcomparison : ∀ {whole : Range} {symbol : String} {left right : Expr} {isEqual : Bool},
        Found (fun f => f.Points ctx (.binary whole symbol left right))
          (checkComparison ctx whole isEqual left right) := by
      intro whole symbol left right isEqual
      unfold checkComparison
      split
      · exact found_some.mpr (.front rfl rfl)
      · exact found_some.mpr (.front rfl rfl)
      · split
        · exact found_some.mpr (.front rfl rfl)
        · exact found_none
    exact found_ite (fun _ => hcomparison) fun _ =>
      found_ite (fun _ => hcomparison) fun _ => found_none
  · exact found_none

theorem arithmetic_points : arithmetic.Points place := by
  intro ctx e he
  change Found _ (checkArithmetic ctx e)
  unfold checkArithmetic
  split
  · rename_i whole symbol left right
    have hwhole : Found (fun f => f.range = whole)
        (checkArithmetic ctx (.binary whole symbol left right)) := by
      unfold checkArithmetic checkPlus checkMinus checkTimes checkDivide keepOperand
      dsimp only
      split_ifs <;> simp
    exact hwhole.imp fun f hf => .front rfl (by rw [hf]; rfl)
  · exact found_none

theorem comparison_points : comparison.Points place := by
  intro ctx e he
  change Found _ (checkOrdering ctx e)
  unfold checkOrdering
  split
  · split
    · exact found_some.mpr (.front rfl rfl)
    · exact found_none
  · exact found_none

theorem numberNegation_points : numberNegation.Points place := by
  intro ctx e he
  change Found _ (checkNegation ctx e)
  unfold checkNegation
  split
  · split
    · exact found_some.mpr (.front rfl rfl)
    · exact found_none
  · exact found_none

theorem ifExpressions_points : ifExpressions.Points place := by
  intro ctx e he
  change Found _ (checkIf ctx e)
  unfold checkIf
  split
  · dsimp only
    split
    · exact found_some.mpr (.front rfl rfl)
    · split
      · exact found_some.mpr (.front rfl rfl)
      · exact found_some.mpr (.front rfl rfl)
      · exact found_ite (fun _ => found_some.mpr (.front rfl rfl)) fun _ => found_none
  · exact found_none

/-- What is found in a case points at all of it. -/
theorem caseExpressions_points : caseExpressions.Points place := by
  intro ctx e he
  change Found _ (checkCase ctx e)
  unfold checkCase
  split
  · refine found_or ?_ ?_
    · unfold checkSameBodies
      split
      · exact found_none
      · exact found_ite (fun _ => found_some.mpr (.front rfl rfl)) fun _ => found_none
    · unfold checkBooleanCase
      split
      · split
        · exact found_ite (fun _ => found_none) fun _ => found_some.mpr (.front rfl rfl)
        · exact found_none
      · exact found_none
  · exact found_none

/-- What is found in a record update points at the first setter that changes nothing. -/
theorem recordUpdate_points : recordUpdate.Points place := by
  intro ctx e he
  change Found _ (checkUpdate ctx e)
  unfold checkUpdate
  split
  · dsimp only
    split
    · exact found_none
    · rename_i first hfirst
      exact found_some.mpr (.setter (List.mem_of_find?_eq_some hfirst) rfl)
  · exact found_none

/-! ### Applications and chains -/

theorem operatorFunctions_points : operatorFunctions.Points place := by
  intro ctx e he
  change Found _ (checkOperatorFunction ctx e)
  unfold checkOperatorFunction
  split
  · exact found_some.mpr (.operator rfl)
  · exact found_none

/-- What is found in an applied function points at its first parameter. -/
theorem appliedLambda_points : appliedLambda.Points place := by
  intro ctx e he
  change Found _ (checkAppliedLambda ctx e)
  unfold checkAppliedLambda
  split
  · split
    · rename_i hfn
      split
      · exact found_none
      · exact found_some.mpr (.parameter hfn rfl)
    · exact found_none
  · exact found_none

/-- What is found about `not` points at two terms of a chain, at a call, or at the name. -/
theorem notCalls_points : notCalls.Points place := by
  intro ctx e he
  change Found _ (checkNot ctx e)
  unfold checkNot
  split
  · rename_i chain hchain
    rcases Chain.ofExpr?_fills he hchain with ⟨hfills, -⟩
    unfold checkNotChain
    split
    · exact found_none
    · rename_i i hi
      have hlt := firstPair_lt hi
      split
      · rename_i first second hfirst hsecond
        -- two negations side by side: both terms go, and the finding shows them as one range
        have hmem := List.mem_of_getElem? hfirst
        have hgap := hfills.stop_le_start hfirst hsecond (by omega)
        have hfirstProper := (hfills.term_lies hmem).1.proper
        have hsecondProper := (hfills.term_lies (List.mem_of_getElem? hsecond)).1.proper
        refine found_some.mpr (.term hchain hmem ?_ fun r hstart hbefore hbehind => ?_)
        · rw [Finding.range_fixing, hfirstProper.merge_eq hsecondProper hgap]
        · exact hfills.removeTerms_rewrites rfl (by omega) hlt hfirst hstart hbefore hbehind
      · exact found_none
  · split
    · rename_i call hcall
      split
      · rename_i argument hnot hargs
        unfold checkNotCall
        split
        · exact found_some.mpr (.negation hcall hnot rfl)
        · split
          · exact found_some.mpr (.name hcall (fun _ => by simp [hargs]) rfl)
          · exact found_none
      · exact found_none
    · exact found_none

/-- What is found in a chain points at the term that does nothing, or at the last one. -/
theorem checkBasicsChain_points {ctx : Context} {e : Expr} {chain : Chain}
    (hchain : Chain.ofExpr? e = some chain) (h : chain.Fills place) :
    Found (fun f => f.Points ctx e) (checkBasicsChain ctx chain) := by
  unfold checkBasicsChain
  split
  · rename_i i term hi hterm
    rcases List.findIdx?_eq_some_iff_findIdx_eq.mp hi with ⟨hlt, hfirst⟩
    rw [List.find?_eq_getElem?_findIdx, hfirst] at hterm
    -- the term that does nothing is removed, and the rest of the chain stays
    refine found_some.mpr (.term hchain (List.mem_of_getElem? hterm) rfl ?_)
    intro r hstart hbefore hbehind
    exact h.removeTerms_rewrites rfl le_rfl hlt hterm hstart hbefore hbehind
  · unfold checkAlwaysChain
    split
    · exact found_none
    · rename_i last hlast
      have hmem := mem_terms_of_applied_last hlast
      have hlies := h.term_lies hmem
      -- what is kept is the last term without its parentheses, which lies inside the term
      have hkept := (Expr.Lies.stripParens ⟨hlies.1, le_rfl, le_rfl⟩).2.1
      refine found_ite (fun _ => ?_) fun _ => found_none
      refine found_some.mpr (.term hchain hmem rfl fun r hstart hbefore hbehind => ?_)
      exact Finding.rewrites_keepOnly rfl hstart (hbefore.trans_le hkept)
        (hlies.2.1.trans_lt hbehind) (hbefore.trans hbehind)

/-- What is found about `identity` and `always` points at a term of a chain or at the name. -/
theorem basics_points : basics.Points place := by
  intro ctx e he
  change Found _ (checkBasics ctx e)
  unfold checkBasics
  split
  · rename_i chain hchain
    exact checkBasicsChain_points hchain (Chain.ofExpr?_fills he hchain).1
  · split
    · rename_i call hcall
      -- neither function is `not`
      have hname : ∀ {function : String} {f : Finding}, call.isOf Core.basics function = true →
          function ≠ "not" → f.range = call.fnRange → f.Points ctx e := by
        intro function f hof hne hf
        refine .name hcall (fun hnot => ?_) hf
        have heq := eq_of_beq hof
        rw [eq_of_beq hnot] at heq
        exact absurd (congrArg ResolvedName.name heq).symm hne
      refine found_ite (fun hof => ?_) fun _ => found_ite (fun hof => ?_) fun _ => found_none
      · unfold checkIdentity
        split
        · exact found_none
        · exact found_some.mpr (hname hof (by decide) rfl)
      · unfold checkAlways
        split
        · exact found_some.mpr (hname hof (by decide) rfl)
        · exact found_none
    · exact found_none

end Rule

/-! ### Families -/

/-- A family treats calls of functions that its library module has. -/
theorem Family.check_points {family : Family} {ctx : Context} {e : Expr}
    (h : ∀ c ∈ family.checks, ∀ call, Call.ofExpr? ctx e = some call →
      call.function.path = family.library.path →
      Found (fun f => f.Points ctx e) (c.2 family.library ctx call)) :
    Found (fun f => f.Points ctx e) (family.check ctx e) := by
  intro f hf
  rcases Option.bind_eq_some_iff.mp hf with ⟨call, hcall, hf⟩
  rcases Family.checkCall_eq_some_iff.mp hf with ⟨hpath, check, hlookup, hf⟩
  exact h _ (Family.mem_of_lookup hlookup) call hcall hpath f hf

/-- The function `not` is in none of the modules that families are about. -/
theorem Finding.Points.of_fnRange {ctx : Context} {e : Expr} {call : Call} {f : Finding}
    (hcall : Call.ofExpr? ctx e = some call) (hpath : call.function.path ≠ Core.basics)
    (h : f.range = call.fnRange) : f.Points ctx e := by
  refine .name hcall (fun hnot => ?_) h
  rw [eq_of_beq hnot] at hpath
  exact absurd rfl hpath

/-- Checks that point at the name of the function make a family that does. -/
theorem Family.check_points_name {family : Family} (hpath : family.library.path ≠ Core.basics)
    (h : ∀ c ∈ family.checks, c.2.PointsAtName) (ctx : Context) (e : Expr) :
    Found (fun f => f.Points ctx e) (family.check ctx e) := by
  refine Family.check_points fun c hc call hcall hfunction f hf => ?_
  exact .of_fnRange hcall (hfunction ▸ hpath) (h c hc family.library ctx call f hf)

theorem Family.rule_points {family : Family} (hpath : family.library.path ≠ Core.basics)
    (h : ∀ c ∈ family.checks, c.2.PointsAtName) : family.rule.Points place :=
  fun ctx e _ => Family.check_points_name hpath h ctx e

namespace Rule

/-- What is found about a list points at an operation or at the name of a function. -/
theorem Lists.rule_points : Lists.rule.Points place := by
  intro ctx e he
  change Found _ (check ctx e)
  have hcalls : Found (fun f => f.Points ctx e) (family.check ctx e) :=
    Family.check_points_name (by decide) family_pointsAtName ctx e
  unfold check
  split
  · refine found_ite (fun _ => ?_) fun _ => found_ite (fun _ => ?_) fun _ => hcalls
    · unfold checkConcatOperator
      dsimp only
      refine found_ite (fun _ => found_some.mpr (.front rfl rfl)) fun _ => ?_
      refine found_ite (fun _ => found_some.mpr (.front rfl rfl)) fun _ => ?_
      split
      · exact found_some.mpr (.front rfl rfl)
      · exact found_some.mpr (.front rfl rfl)
      · exact found_none
    · intro f hf
      rcases Option.map_eq_some_iff.mp hf with ⟨elements, -, rfl⟩
      exact .front rfl rfl
  · exact hcalls

theorem Strings.rule_points : Strings.rule.Points place := by
  intro ctx e he
  change Found _ (check ctx e)
  have hcalls : Found (fun f => f.Points ctx e) (family.check ctx e) :=
    Family.check_points_name (by decide) family_pointsAtName ctx e
  unfold check
  split
  · refine found_ite (fun _ f hf => ?_) fun _ => hcalls
    rcases Option.map_eq_some_iff.mp hf with ⟨kept, -, rfl⟩
    exact .front rfl rfl
  · exact hcalls

/-- What is found in batched effects points at the name of the function or at an element. -/
theorem Effect.rule_points {lib : Library} (hpath : lib.path ≠ Core.basics)
    (hcode : lib.code = .cmd ∨ lib.code = .sub) :
    (Family.rule ⟨lib, [("batch", batch), ("map", map)]⟩).Points place := by
  intro ctx e he
  refine Family.check_points fun c hc call hcall hfunction => ?_
  have hfn : call.function.path ≠ Core.basics := hfunction ▸ hpath
  simp only [List.mem_cons, List.not_mem_nil, or_false] at hc
  rcases hc with rfl | rfl
  · refine (batch_points lib ctx (Call.ofExpr?_fills he hcall).1).imp fun f hf => ?_
    rcases hf with hf | ⟨hrule, hf⟩
    · exact .of_fnRange hcall hfn hf
    · exact .element hcall (hrule ▸ hcode) hf
  · exact (map_pointsAtName lib ctx call).imp fun f hf => .of_fnRange hcall hfn hf

/-- Every rule of the catalog points at something. -/
theorem ofCode_points (code : RuleCode) : (ofCode code).Points place := by
  cases code with
  | booleanOperators => exact booleanOperators_points
  | notCalls => exact notCalls_points
  | equality => exact equality_points
  | ifExpressions => exact ifExpressions_points
  | caseExpressions => exact caseExpressions_points
  | recordUpdate => exact recordUpdate_points
  | arithmetic => exact arithmetic_points
  | numberNegation => exact numberNegation_points
  | comparison => exact comparison_points
  | operatorFunctions => exact operatorFunctions_points
  | appliedLambda => exact appliedLambda_points
  | basics => exact basics_points
  | list => exact Lists.rule_points
  | string => exact Strings.rule_points
  | maybe => exact Family.rule_points (by decide) Wrapped.maybeFamily_pointsAtName
  | result => exact Family.rule_points (by decide) Wrapped.resultFamily_pointsAtName
  | set => exact Family.rule_points (by decide) Collection.setFamily_pointsAtName
  | dict => exact Family.rule_points (by decide) Collection.dictFamily_pointsAtName
  | cmd => exact Effect.rule_points (by decide) (.inl rfl)
  | sub => exact Effect.rule_points (by decide) (.inr rfl)

/-- The forms of nodes that some rule looks at. -/
def formsOfAll : List Form := [.app, .binary, .negate, .cond, .case, .update]

theorem forms_ofCode_subset (code : RuleCode) : (ofCode code).forms ⊆ formsOfAll := by
  cases code <;> decide

/-- What is found first at a node points at something, and the node has one of the forms that are
looked at. -/
theorem firstFinding_points {rules : List Rule} (hrules : rules ⊆ all) (ctx : Context) {e : Expr}
    (he : e.Nested place) :
    Found (fun f => f.Points ctx e ∧ e.form ∈ formsOfAll) (firstFinding rules ctx e) := by
  intro f hf
  rcases List.exists_of_findSome?_eq_some hf with ⟨rule, hrule, hf⟩
  rcases List.mem_map.mp (hrules hrule) with ⟨code, -, rfl⟩
  split at hf
  · rename_i hform
    exact ⟨ofCode_points code ctx e he f hf,
      forms_ofCode_subset code (List.contains_iff_mem.mp hform)⟩
  · cases hf

end Rule

end Terse
