import Mathlib.Tactic.Order
import Terse.Proofs.Rule.Family
import Terse.Proofs.View.Chain
import Terse.Rule.Function

/-!
# Simplifications of functions fit
-/

namespace Terse.Rule

variable {place : Location → Prop}

/-! ## Operators as functions -/

/-- The operands are written around the operator in the place of the application. -/
theorem operatorFunctions_fits : operatorFunctions.Fits place := by
  intro ctx e he
  change Finds place e.range (checkOperatorFunction ctx e)
  unfold checkOperatorFunction
  split
  · rename_i whole name symbol left right
    change Finds place whole _
    rw [Expr.Nested] at he
    rcases he with ⟨-, hstart, hname, -, hgap, hleft, hgap', hright, hend⟩
    have hname : name.Proper place := hname
    have hgap : name.stop ≤ left.range.start := hgap
    have hstart : whole.start = name.start := hstart
    have hnameLt := hname.lt
    have hleftLt := hleft.proper.lt
    have hrightLt := hright.proper.lt
    have hstop : right.range.stop ≤ whole.stop := le_of_eq hend
    have hhead : Range.Fits place ⟨name.start, left.range.start⟩ whole :=
      Range.fits_between (by order) hstart.le (by order) hname.start hleft.proper.start
    have hmiddle : Range.Fits place ⟨left.range.stop, right.range.start⟩ whole :=
      Range.fits_between hgap' (by order) (by order) hleft.proper.stop hright.proper.start
    have hclosing : Range.Fits place ⟨right.range.stop, right.range.stop⟩ whole :=
      Range.fits_between le_rfl (by order) hstop hright.proper.stop hright.proper.stop
    have hheadLt : name.start < right.range.start := by order
    refine finds_some.mpr (fits_fixing (hname.fits hstart.le (by order)) ?_)
    split
    · exact fixFits_pair hhead hmiddle hleftLt.le hheadLt
    · -- the operator may stand between two operands that touch
      refine fixFits_cons hhead (fixFits_pair hmiddle hclosing hrightLt.le
        (show left.range.stop < right.range.stop by order)) ?_
      intro e he
      simp only [List.mem_cons, List.not_mem_nil, or_false] at he
      rcases he with rfl | rfl
      · exact ⟨hleftLt.le, hheadLt⟩
      · exact ⟨show left.range.start ≤ right.range.stop by order,
          show name.start < right.range.stop by order⟩
  · exact finds_none

/-! ## Functions that ignore their argument -/

/-- The body is kept, or the first parameter goes with its argument. -/
theorem appliedLambda_fits : appliedLambda.Fits place := by
  intro ctx e he
  change Finds place e.range (checkAppliedLambda ctx e)
  unfold checkAppliedLambda
  split
  · rename_i whole fn argument moreArgs
    change Finds place whole _
    have hwhole : whole.Proper place := he.proper
    have hfn : fn.PartOf place whole := he.children_part List.mem_cons_self
    have hlambda := Expr.Lies.stripParens ⟨hfn.1.1, le_rfl, le_rfl⟩
    rw [Expr.Nested] at he
    rcases he with ⟨-, hstart, -, -, hargs⟩
    have hargument := Expr.lies_of_mem hargs List.mem_cons_self
    split
    · rename_i lambdaRange param moreParams body heq
      rw [heq] at hlambda
      rcases hlambda with ⟨hnested, hlambdaStart, hlambdaStop⟩
      have hlambdaStart : fn.range.start ≤ lambdaRange.start := hlambdaStart
      have hlambdaStop : lambdaRange.stop ≤ fn.range.stop := hlambdaStop
      have hbodyLies := (hnested.children List.mem_cons_self).mono hlambdaStart hlambdaStop
      have hbodyStop := hbodyLies.2.2
      have hbody : body.PartOf place whole := hfn.of_lies hbodyLies
      rw [Expr.Nested] at hnested
      rcases hnested with ⟨hlambdaRange, -, opening, last, hopening, hparams, hlast, -, -⟩
      rw [Pattern.nestedAll_iff] at hparams
      have hle : ∀ p : Pattern, p.Nested place → p.range.start ≤ p.range.stop :=
        fun _ h => h.proper.le
      rcases hparams with ⟨hparamStart, hparam, hrest⟩
      have hparamLt := hparam.proper.lt
      have hrestLe := hrest.le hle
      have hbodyLe := (hbody.1.1.le).trans hbodyStop
      -- the parameters and the body lie in the function, the argument behind it
      have hfnStart := hfn.1.2.1
      have hfnStop := hfn.1.2.2
      have hargLt := hargument.1.proper.lt
      have hargStart := hargument.2.1
      have hdrop : Range.Fits place ⟨fn.range.stop, argument.range.stop⟩ whole :=
        Range.fits_between (by order) (hfnStart.trans hfn.1.1.le) hargument.2.2
          hfn.1.1.proper.stop hargument.1.proper.stop
      have hbefore : ∀ {a b : Location}, lambdaRange.start ≤ a → a < b → b ≤ fn.range.stop →
          place a → place b → FixFits place whole
            [.remove ⟨a, b⟩, .remove ⟨fn.range.stop, argument.range.stop⟩] := by
        intro a b ha hab hb hplace hplace'
        have hinside : Range.Fits place ⟨a, b⟩ whole :=
          Range.fits_between hab.le (by order) (by order) hplace hplace'
        exact fixFits_pair hinside hdrop hb (show a < argument.range.stop by order)
      split
      · exact finds_none
      · refine finds_some.mpr (fits_fixing (hparam.proper.fits (by order) (by order)) ?_)
        split
        · exact ctx.keepOnly_fits hwhole hbody.stripParens
        · exact hbefore le_rfl (by order) (by order) hlambdaRange.start hbody.1.1.proper.start
        · rename_i next _
          rcases hrest with ⟨hnextStart, hnext, hrest⟩
          have hnextLe := hnext.proper.le
          have hrestLe := hrest.le hle
          exact hbefore (by order) (by order) (by order) hparam.proper.start hnext.proper.start
    · exact finds_none
  · exact finds_none

/-! ## `identity` and `always` -/

/-- The term that is applied last is one of the terms. -/
theorem mem_terms_of_applied_last {chain : Chain} {last : Expr}
    (h : chain.applicationOrder.getLast? = some last) : last ∈ chain.terms := by
  have hmem := List.mem_of_getLast? h
  unfold Chain.applicationOrder at hmem
  split at hmem
  · exact hmem
  · exact List.mem_reverse.mp hmem

/-- Terms of a chain are removed inside the chain. -/
theorem checkBasicsChain_fits (ctx : Context) {chain : Chain} (h : chain.Fills place) :
    Finds place chain.range (checkBasicsChain ctx chain) := by
  have hterm : ∀ t ∈ chain.terms, t.range.Fits place chain.range := by
    intro t ht
    rcases h.term_lies ht with ⟨hnested, hstart, hstop⟩
    exact hnested.proper.fits hstart hstop
  unfold checkBasicsChain
  split
  · rename_i i term hi hterm'
    have hlt := (List.findIdx?_eq_some_iff_findIdx_eq.mp hi).1
    exact finds_some.mpr (fits_fixing (hterm _ (List.mem_of_find?_eq_some hterm'))
      (h.removeTerms_fits le_rfl hlt _))
  · unfold checkAlwaysChain
    split
    · exact finds_none
    · rename_i last hlast
      have hmem := mem_terms_of_applied_last hlast
      refine finds_ite (fun _ => ?_) fun _ => finds_none
      exact finds_some.mpr (fits_fixing (hterm _ hmem)
        (ctx.keepOnly_fits h.range (h.term_part hmem).stripParens))

section

variable {ctx : Context} {call : Call} {e : Expr} (he : e.Nested place)
  (hcall : Call.ofExpr? ctx e = some call)
include he hcall

/-- The head of a call starts in the call, no later than the function is named. -/
theorem headStart_le : call.range.start ≤ headStart call e ∧
    headStart call e ≤ call.fnRange.start ∧ place (headStart call e) := by
  rcases Call.ofExpr?_fills he hcall with ⟨hfills, hrange⟩
  have hstart := hfills.stands.start_le
  unfold headStart
  split
  · rename_i r fn args hdirect
    rw [Expr.Nested] at he
    have heq : call.range.start = fn.range.start := hrange ▸ he.2.1
    rw [← heq]
    exact ⟨le_rfl, hstart, hfills.range.start⟩
  · exact ⟨hstart, le_rfl, hfills.stands.fn.start⟩

theorem fromHead_fits {a : Expr} (ha : a ∈ call.behind) :
    Range.Fits place ⟨headStart call e, a.range.start⟩ call.range ∧
      headStart call e < a.range.start := by
  rcases Call.ofExpr?_fills he hcall with ⟨hfills, -⟩
  rcases headStart_le he hcall with ⟨hstart, hle, hplace⟩
  rcases hfills.behind_lies ha with ⟨hnested, hgap, hstop⟩
  have hfn := hfills.stands.fn.lt
  have hlt : headStart call e < a.range.start := by order
  exact ⟨Range.fits_between hlt.le hstart (hnested.le.trans hstop) hplace hnested.proper.start, hlt⟩

/-- What stands before the first argument is removed, from the head of the call on. -/
theorem checkIdentity_fits : Finds place call.range (checkIdentity ctx call e) := by
  rcases Call.ofExpr?_fills he hcall with ⟨hfills, -⟩
  unfold checkIdentity
  split
  · exact finds_none
  · rename_i first more hargs
    refine finds_some.mpr (fits_fixing hfills.fn_fits ?_)
    split
    · have hpart := hfills.arg_part (a := first) (by simp [hargs])
      exact ctx.keepOnly_fits hfills.range hpart.stripParens
    · rename_i hmore
      obtain ⟨rest, hbehind⟩ := Call.behind_of_append (show call.args = [first] ++ more from hargs)
        (by simpa using hmore)
      exact fixFits_single (fromHead_fits he hcall (by simp [hbehind])).1

theorem checkAlways_fits : Finds place call.range (checkAlways ctx call e) := by
  rcases Call.ofExpr?_fills he hcall with ⟨hfills, -⟩
  unfold checkAlways
  split
  · rename_i first second more hargs
    refine finds_some.mpr (fits_fixing hfills.fn_fits ?_)
    split
    · have hpart := hfills.arg_part (a := first) (by simp [hargs])
      exact ctx.keepOnly_fits hfills.range hpart.stripParens
    · -- the second argument goes with what stands between it and the first
      rename_i hmore
      obtain ⟨rest, hbehind⟩ := Call.behind_of_append
        (show call.args = [first, second] ++ more from hargs) (by simpa using hmore)
      rcases fromHead_fits he hcall (a := first) (by simp [hbehind]) with ⟨hhead, hheadLt⟩
      have hline := hfills.stands.behind
      rw [hbehind] at hline
      rcases between_cons.mp hline with ⟨-, hfirst, hline⟩
      rcases between_cons.mp hline with ⟨hgap, hsecond, hline⟩
      have hstop := hline.le fun _ => Expr.Nested.le
      have hfirstLt := hfirst.proper.lt
      have hsecondLt := hsecond.proper.lt
      have hstart := (headStart_le he hcall).1
      have hdrop : Range.Fits place ⟨first.range.stop, second.range.stop⟩ call.range :=
        Range.fits_between (by order) (by order) hstop hfirst.proper.stop hsecond.proper.stop
      exact fixFits_pair hhead hdrop hfirstLt.le
        (show headStart call e < second.range.stop by order)
  · exact finds_none

end

theorem basics_fits : basics.Fits place := by
  intro ctx e he
  change Finds place e.range (checkBasics ctx e)
  unfold checkBasics
  split
  · rename_i chain hchain
    rcases Chain.ofExpr?_fills he hchain with ⟨hfills, hrange⟩
    rw [← hrange]
    exact checkBasicsChain_fits ctx hfills
  · split
    · rename_i call hcall
      have hrange := (Call.ofExpr?_fills he hcall).2
      rw [← hrange]
      refine finds_ite (fun _ => ?_) fun _ => finds_ite (fun _ => ?_) fun _ => finds_none
      · exact checkIdentity_fits he hcall
      · exact checkAlways_fits he hcall
    · exact finds_none

end Terse.Rule
