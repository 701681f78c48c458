import Terse.Proofs.Rule.Arity
import Terse.Rule.Effect

/-!
# Simplifications of effects

What is found in calls of the functions of `Cmd` and `Sub` fits; and each function is treated by
the number of arguments that it takes.
-/

namespace Terse.Rule.Effect

open Library
open Call (FixedWhole FixedInside)

variable {place : Location → Prop}

/-- Taking effects out of a batch leaves at least one of them. -/
theorem dropNone_fits {call : Call} (h : call.Fills place) (lib : Library) (ctx : Context)
    {elements : List Expr} (helements : (call.arg? 0).bind Expr.list? = some elements) :
    Finds place call.range (dropNone lib ctx call elements) := by
  rcases h.elements_between helements with ⟨opening, closing, hopening, hline, hclosing⟩
  unfold dropNone
  dsimp only
  split
  · exact finds_none
  · rename_i first hfirst
    refine finds_ite (fun _ => ?_) fun hall => ?_
    · exact finds_some.mpr (replaceCall_fits h lib ctx)
    · have hmem := List.mem_of_find?_eq_some hfirst
      have hnone := List.find?_some hfirst
      rcases h.element_part helements hmem with ⟨⟨hnested, hstart, hstop⟩, -⟩
      refine finds_some.mpr (fits_fixing (hnested.proper.fits hstart hstop) (removeItems_fits ?_
        ?_ ?_))
      · exact (hline.between.map (fun e => (e.range, isNone lib ctx e))
          (fun _ _ => rfl) fun _ he => he.proper).mono hopening.le hclosing.le
      · exact ⟨_, List.mem_map_of_mem hmem, hnone⟩
      · rw [List.all_eq_true] at hall
        push Not at hall
        rcases hall with ⟨other, hother, hkept⟩
        exact ⟨_, List.mem_map_of_mem hother, by simpa using hkept⟩

/-- An only effect is kept; otherwise effects that do nothing are taken out, or the call is
replaced. -/
theorem batch_fits : CallCheck.Fits place batch := by
  intro lib ctx call h
  unfold batch
  split
  · exact finds_none
  · exact finds_some.mpr (replaceCall_fits h lib ctx)
  · rename_i only helements
    exact finds_some.mpr (keepArg_fits h lib ctx (h.element_part helements List.mem_cons_self))
  · rename_i elements _ _ helements
    exact dropNone_fits h lib ctx helements

theorem map_fits : CallCheck.Fits place map := by
  intro lib ctx call h
  unfold map
  dsimp only
  split
  · exact finds_none
  · refine finds_ite (fun _ => ?_) fun _ => ?_
    · exact finds_some.mpr (keepArgOrIdentity_fits h lib ctx)
    · split
      · refine finds_ite (fun _ => ?_) fun _ => finds_none
        exact finds_some.mpr (replaceCall_fits h lib ctx)
      · exact finds_none

/-- What is found in calls of the functions of `Cmd` fits. -/
theorem cmdFamily_fits : ∀ c ∈ cmdFamily.checks, CallCheck.Fits place c.2 := by
  simp only [cmdFamily, List.forall_mem_cons]
  exact ⟨batch_fits, map_fits, by simp⟩

theorem subFamily_fits : ∀ c ∈ subFamily.checks, CallCheck.Fits place c.2 := by
  simp only [subFamily, List.forall_mem_cons]
  exact ⟨batch_fits, map_fits, by simp⟩

/-! ## Arguments -/

/-- The call batches two effects of a module or more, and not all of them do nothing. -/
def BatchesSome (path : ModuleName) (ctx : Context) (call : Call) : Prop :=
  ∃ elements, (call.arg? 0).bind Expr.list? = some elements ∧ 2 ≤ elements.length ∧
    ∃ e ∈ elements, ctx.isReference e path "none" = false

/-- Not all effects do nothing if one of them does something. -/
theorem all_none_eq_false_iff {lib : Library} {ctx : Context} {elements : List Expr} :
    elements.all (isNone lib ctx) = false ↔
      ∃ e ∈ elements, ctx.isReference e lib.path "none" = false := by
  simp only [List.all_eq_false, Bool.not_eq_true]
  rfl

/-- Further arguments do not change which effects are dropped. -/
theorem dropNone_surplus (lib : Library) (ctx : Context) (call : Call) (n : Nat)
    (elements : List Expr) :
    dropNone lib ctx (call.cut n) elements = dropNone lib ctx call elements := rfl

/-- Only if all effects do nothing does the call go. -/
theorem batch_takes : batch.TakesOr 1 fun lib => BatchesSome lib.path where
  surplus lib ctx call hn := by simp [batch, dropNone_surplus]
  inside lib ctx call h := by
    rcases h with ⟨elements, helements, htwo, hsome⟩
    have hlength := Call.lt_of_list? helements
    unfold batch
    rw [helements]
    rcases exists_cons_cons htwo with ⟨first, second, rest, rfl⟩
    dsimp only
    unfold dropNone
    dsimp only
    split
    · exact found_none
    · rw [if_neg (Bool.eq_false_iff.mp (all_none_eq_false_iff.mpr hsome))]
      rcases Option.bind_eq_some_iff.mp helements with ⟨a, ha, hlist⟩
      refine found_some.mpr (.elements Nat.one_pos hlength ha hlist fun _ _ _ h => ?_)
      exact removeItems_between (h.map (fun e => (e.range, isNone lib ctx e))
        (fun _ _ => rfl) fun _ he => he.proper)
  whole lib ctx call h := by
    unfold batch
    split
    · exact found_none
    · rename_i helements
      exact found_some.mpr (replaceCall_whole lib ctx (Call.lt_of_list? helements) _ true)
    · rename_i only helements
      exact found_some.mpr (keepElement_whole lib ctx helements List.mem_cons_self)
    · rename_i elements hne hne' helements
      have htwo : 2 ≤ elements.length := by
        rcases elements with _ | ⟨only, _ | ⟨second, rest⟩⟩
        · exact (hne rfl).elim
        · exact (hne' only rfl).elim
        · simp
      have hall : elements.all (isNone lib ctx) = true := by
        by_contra hall
        rw [Bool.not_eq_true, all_none_eq_false_iff] at hall
        exact h ⟨elements, helements, htwo, hall⟩
      unfold dropNone
      dsimp only
      split
      · exact found_none
      · rw [if_pos hall]
        exact found_some.mpr (replaceCall_whole lib ctx (Call.lt_of_list? helements) _ true)

/-- A function and an effect are taken. -/
theorem map_takes : map.Takes 2 where
  surplus lib ctx call hn := by simp [map]
  whole lib ctx call := by
    unfold map
    dsimp only
    split
    · exact found_none
    · refine found_ite (fun _ => ?_) fun _ => ?_
      · exact found_some.mpr (keepArgOrIdentity_whole lib ctx)
      · split
        · rename_i heffect
          refine found_ite (fun _ => ?_) fun _ => found_none
          exact found_some.mpr (replaceCall_whole lib ctx (Call.lt_of_arg? heffect) _ true)
        · exact found_none

/-- All functions but one are only rewritten as a whole; both modules have the same. -/
theorem family_takes {path : ModuleName} (hpath : path = Core.cmd ∨ path = Core.sub) :
    ∀ c ∈ cmdFamily.checks, c.1 ∉ ["batch"] →
      ∃ n, Core.arity? ⟨path, c.1⟩ = some n ∧ c.2.Takes n := by
  simp only [cmdFamily, List.forall_mem_cons]
  refine ⟨by simp, fun _ => ⟨2, ?_, map_takes⟩, by simp⟩
  rcases hpath with rfl | rfl <;> rfl

end Terse.Rule.Effect
