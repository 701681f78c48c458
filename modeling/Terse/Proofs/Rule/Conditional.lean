import Mathlib.Tactic.Order
import Terse.Proofs.Rule.Family
import Terse.Rule.Conditional
import Terse.Rule.Record

/-!
# Simplifications of conditionals, cases and records fit
-/

namespace Terse.Rule

variable {place : Location → Prop}

/-! ## Conditionals -/

/-- From the start of a node to the end of a part of it. -/
theorem head_fits {whole : Range} {part : Expr} (hwhole : whole.Proper place)
    (hpart : part.PartOf place whole) : Range.Fits place ⟨whole.start, part.range.stop⟩ whole :=
  Range.fits_between (hpart.1.2.1.trans hpart.1.1.le) le_rfl hpart.1.2.2 hwhole.start
    hpart.1.1.proper.stop

/-- A branch or the condition is kept, or the negated condition is written. -/
theorem ifExpressions_fits : ifExpressions.Fits place := by
  intro ctx e he
  change Finds place e.range (checkIf ctx e)
  unfold checkIf
  split
  · rename_i whole condition thenBranch elseBranch
    have hwhole : whole.Proper place := he.proper
    have hcondition : condition.PartOf place whole := he.children_part List.mem_cons_self
    have hthen : thenBranch.PartOf place whole := he.children_part (by simp [Expr.children])
    have helse : elseBranch.PartOf place whole := he.children_part (by simp [Expr.children])
    -- whatever is found is found at the word `if` and the condition
    have hhead := head_fits hwhole hcondition
    dsimp only
    split
    · refine finds_some.mpr (fits_fixing hhead (ctx.keepOnly_fits hwhole ?_))
      split
      · exact hthen.stripParens
      · exact helse.stripParens
    · split
      · exact finds_some.mpr (fits_fixing hhead (ctx.keepOnly_fits hwhole hcondition.stripParens))
      · exact finds_some.mpr (fits_fixing hhead (ctx.replaceBy_fits hwhole _ _))
      · refine finds_ite (fun _ => ?_) fun _ => finds_none
        exact finds_some.mpr (fits_fixing hhead (ctx.keepOnly_fits hwhole hthen.stripParens))
  · exact finds_none

/-! ## Cases -/

section

variable (ctx : Context) {whole : Range} {scrutinee : Expr} {branches : List Branch}
  (h : Expr.Nested place (.case whole scrutinee branches))
include h

/-- The result of a branch stands inside the case. -/
theorem body_part {b : Branch} (hb : b ∈ branches) : b.body.PartOf place whole :=
  h.children_part (List.mem_cons_of_mem _ (List.mem_map_of_mem hb))

/-- The result of the first branch is kept. -/
theorem checkSameBodies_fits :
    Finds place whole (checkSameBodies ctx whole scrutinee branches) := by
  have hscrutinee : scrutinee.PartOf place whole := h.children_part List.mem_cons_self
  unfold checkSameBodies
  split
  · exact finds_none
  · dsimp only
    refine finds_ite (fun _ => ?_) fun _ => finds_none
    exact finds_some.mpr (fits_fixing (head_fits h.proper hscrutinee)
      (ctx.keepOnly_fits h.proper (body_part h List.mem_cons_self).stripParens))

/-- A case becomes a conditional by edits before, between and behind its two bodies. -/
theorem caseAsIf_fits {first second : Branch} (condition : String)
    (hbranches : branches = [first, second]) :
    FixFits place whole (caseAsIf ctx whole condition first.body second.body) := by
  subst hbranches
  have hwhole : whole.Proper place := h.proper
  have hfirst := (body_part h List.mem_cons_self).1
  have hsecond := (body_part h (List.mem_cons_of_mem _ List.mem_cons_self)).1
  rw [Expr.Nested] at h
  rcases h with ⟨-, -, -, -, start, -, hline⟩
  rw [Expr.nestedBranches_iff] at hline
  rcases hline with ⟨-, -, hgap, hnested, -⟩
  have hpattern := hnested.1.proper.le
  have hbody := hnested.2.1
  have hlt : first.body.range.stop < second.body.range.start :=
    lt_of_le_of_lt (hgap.trans hpattern) hbody
  have hfirstLt := hfirst.1.proper.lt
  have hsecondLt := hsecond.1.proper.lt
  have hbefore : Range.Fits place ⟨whole.start, first.body.range.start⟩ whole :=
    Range.fits_between hfirst.2.1 le_rfl (hfirst.1.le.trans hfirst.2.2) hwhole.start
      hfirst.1.proper.start
  have hbetween : Range.Fits place ⟨first.body.range.stop, second.body.range.start⟩ whole :=
    Range.fits_between hlt.le (hfirst.2.1.trans hfirst.1.le) (hsecond.1.le.trans hsecond.2.2)
      hfirst.1.proper.stop hsecond.1.proper.start
  have hbehind : Range.Fits place ⟨whole.stop, whole.stop⟩ whole :=
    Range.fits_between le_rfl hwhole.le le_rfl hwhole.stop hwhole.stop
  have hstart : whole.start < second.body.range.start := by
    have hle := hfirst.2.1
    order
  unfold caseAsIf
  dsimp only
  split
  · -- a case that stands free needs no parentheses
    rw [List.append_nil]
    exact fixFits_pair hbefore hbetween hfirst.1.le hstart
  · rw [List.cons_append, List.singleton_append]
    refine fixFits_cons hbefore (fixFits_pair hbetween hbehind (hsecond.1.le.trans hsecond.2.2) ?_)
      ?_
    · exact hlt.trans (hsecondLt.trans_le hsecond.2.2)
    · intro e he
      simp only [List.mem_cons, List.not_mem_nil, or_false] at he
      rcases he with rfl | rfl
      · exact ⟨hfirst.1.le, hstart⟩
      · exact ⟨hfirst.1.le.trans hfirst.2.2, hwhole.lt⟩

/-- The case becomes a condition with its two results. -/
theorem checkBooleanCase_fits :
    Finds place whole (checkBooleanCase ctx whole scrutinee branches) := by
  have hscrutinee : scrutinee.PartOf place whole := h.children_part List.mem_cons_self
  unfold checkBooleanCase
  split
  · split
    · refine finds_ite (fun _ => finds_none) fun _ => ?_
      exact finds_some.mpr (fits_fixing (head_fits h.proper hscrutinee)
        (caseAsIf_fits ctx h _ rfl))
    · exact finds_none
  · exact finds_none

end

theorem caseExpressions_fits : caseExpressions.Fits place := by
  intro ctx e he
  change Finds place e.range (checkCase ctx e)
  unfold checkCase
  split
  · exact finds_or (checkSameBodies_fits ctx he) (checkBooleanCase_fits ctx he)
  · exact finds_none

/-! ## Records -/

/-- Setters are taken out of an update, or the update becomes its record. -/
theorem recordUpdate_fits : recordUpdate.Fits place := by
  intro ctx e he
  change Finds place e.range (checkUpdate ctx e)
  unfold checkUpdate
  split
  · rename_i whole base setters
    have hwhole : whole.Proper place := he.proper
    rw [Expr.Nested] at he
    rcases he with ⟨-, hstart, hbase, opening, closing, hopening, hsetters, hclosing⟩
    have hbaseLt := hbase.lt
    -- the setters follow one another inside the braces
    have hline := (Expr.nestedSetters_iff.mp hsetters).between.mono
      (show whole.start ≤ opening by order) hclosing.le
    dsimp only
    split
    · exact finds_none
    · rename_i first hfirst
      have hmem := List.mem_of_find?_eq_some hfirst
      have hself := List.find?_some hfirst
      have hproper := (hline.ok_of_mem hmem).proper
      have hok : ∀ s : Setter, s.Nested place → s.range.start ≤ s.range.stop :=
        fun _ h => h.proper.le
      refine finds_some.mpr (fits_fixing
        (hproper.fits (hline.start_le hok hmem) (hline.le_stop hok hmem)) ?_)
      split
      · -- every setter is one that changes nothing
        exact fixFits_single hwhole.fits_self
      · rename_i hall
        apply removeItems_fits
        · exact hline.map _ (fun _ _ => rfl) fun _ h => h.proper
        · exact ⟨_, List.mem_map_of_mem hmem, hself⟩
        · rw [List.all_eq_true] at hall
          push Not at hall
          rcases hall with ⟨other, hother, hkept⟩
          exact ⟨_, List.mem_map_of_mem hother, by simpa using hkept⟩
  · exact finds_none

end Terse.Rule
