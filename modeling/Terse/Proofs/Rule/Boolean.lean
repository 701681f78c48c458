import Mathlib.Tactic.Order
import Terse.Proofs.Rule.Family
import Terse.Proofs.View.Chain
import Terse.Rule.Boolean

/-!
# Simplifications of Boolean algebra fit
-/

namespace Terse.Rule

variable {place : Location → Prop}

/-! ## Operators with a known operand -/

/-- One of the two operands is kept. -/
theorem booleanOperators_fits : booleanOperators.Fits place := by
  intro ctx e he
  change Finds place e.range (checkBooleanOperator ctx e)
  unfold checkBooleanOperator
  split
  · rename_i whole symbol left right
    have hwhole := he.proper
    have hleft := he.left_part
    have hright := he.right_part
    -- the known operand may stand on either side
    have hknown : ∀ {absorbing value : Bool} {known other : Expr}, known.PartOf place whole →
        other.PartOf place whole →
        (knownOperand ctx whole absorbing value known other).Fits place whole := by
      intro absorbing value known other hknown hother
      unfold knownOperand
      split
      · exact fits_fixing hwhole.fits_self (ctx.keepOnly_fits hwhole hknown.stripParens)
      · exact fits_fixing (hknown.1.1.proper.fits hknown.1.2.1 hknown.1.2.2)
          (ctx.keepOnly_fits hwhole hother.stripParens)
    split
    · exact finds_none
    · split
      · exact finds_some.mpr (hknown hleft hright)
      · exact finds_some.mpr (hknown hright hleft)
      · refine finds_ite (fun _ => ?_) fun _ => finds_none
        exact finds_some.mpr (fits_fixing (hright.1.1.proper.fits hright.1.2.1 hright.1.2.2)
          (ctx.keepOnly_fits hwhole hleft.stripParens))
  · exact finds_none

/-! ## Negation -/

/-- The pair that is found lies in the list. -/
theorem firstPair_lt {α : Type} {test : α → Bool} {xs : List α} {i : Nat}
    (h : firstPair test xs = some i) : i + 1 < xs.length := by
  induction xs generalizing i with
  | nil => simp [firstPair] at h
  | cons x xs ih =>
    cases xs with
    | nil => simp [firstPair] at h
    | cons y rest =>
      rw [firstPair] at h
      split at h
      · cases h
        simp
      · rcases Option.map_eq_some_iff.mp h with ⟨j, hj, rfl⟩
        have := ih hj
        simp only [List.length_cons] at *
        omega

/-- Two neighbouring negations are removed inside the chain. -/
theorem checkNotChain_fits (ctx : Context) {chain : Chain} (h : chain.Fills place) :
    Finds place chain.range (checkNotChain ctx chain) := by
  unfold checkNotChain
  split
  · exact finds_none
  · rename_i i hi
    have hlt := firstPair_lt hi
    split
    · rename_i first second hfirst hsecond
      -- the two neighbours go together, with what stands between them
      have hgap := h.stop_le_start hfirst hsecond (by omega)
      have hfirstLies := h.term_lies (List.mem_of_getElem? hfirst)
      have hsecondLies := h.term_lies (List.mem_of_getElem? hsecond)
      have hspan := hfirstLies.1.proper.span hsecondLies.1.proper hgap
      refine finds_some.mpr (fits_fixing ?_ (h.removeTerms_fits (by omega) hlt _))
      rw [hfirstLies.1.proper.merge_eq hsecondLies.1.proper hgap]
      exact hspan.fits hfirstLies.2.1 hsecondLies.2.2
    · exact finds_none

/-- The call is replaced by a boolean, or what is negated twice is kept. -/
theorem checkNotCall_fits (ctx : Context) {call : Call} (h : call.Fills place) {argument : Expr}
    (hargument : argument ∈ call.args) :
    Finds place call.range (checkNotCall ctx call argument) := by
  unfold checkNotCall
  split
  · exact finds_some.mpr (fits_fixing h.range.fits_self (ctx.replaceBy_fits h.range _ _))
  · split
    · rename_i inner hinner
      have hpart := h.arg_part hargument
      have hkept := hpart.of_lies (Context.argOfCall?_lies hpart.1.1 hinner)
      exact finds_some.mpr (fits_fixing h.fn_fits (ctx.keepOnly_fits h.range hkept.stripParens))
    · exact finds_none

theorem notCalls_fits : notCalls.Fits place := by
  intro ctx e he
  change Finds place e.range (checkNot ctx e)
  unfold checkNot
  split
  · rename_i chain hchain
    rcases Chain.ofExpr?_fills he hchain with ⟨hfills, hrange⟩
    rw [← hrange]
    exact checkNotChain_fits ctx hfills
  · split
    · rename_i call hcall
      rcases Call.ofExpr?_fills he hcall with ⟨hfills, hrange⟩
      rw [← hrange]
      split
      · rename_i argument _ hargs
        exact checkNotCall_fits ctx hfills (by simp [hargs])
      · exact finds_none
    · exact finds_none

/-! ## Equality -/

/-- A direct negation names `not` before its argument. -/
theorem negated?_fits {ctx : Context} {e argument : Expr} {name : Range} (he : e.Nested place)
    (h : negated? ctx e = some (name, argument)) :
    Range.Fits place ⟨name.start, argument.range.start⟩ e.range ∧
      name.start < argument.range.start := by
  unfold negated? at h
  split at h
  · rename_i call hcall
    rcases Call.ofExpr?_fills he hcall with ⟨hfills, hrange⟩
    split at h
    · rename_i argument' _ hargs hdirect
      cases h
      have hbehind : argument ∈ call.behind := by
        simp [Call.behind, hdirect, hargs]
      rcases hfills.behind_lies hbehind with ⟨hnested, hstart, hstop⟩
      have hlt := hfills.stands.fn.lt.trans_le hstart
      rw [← hrange]
      exact ⟨Range.fits_between hlt.le hfills.stands.start_le (hnested.le.trans hstop)
        hfills.stands.fn.start hnested.proper.start, hlt⟩
    · cases h
  · cases h

/-- What is left of a comparison is one of its sides. -/
theorem comparedWithBool?_eq_or {ctx : Context} {isEqual : Bool} {left right kept : Expr}
    (h : comparedWithBool? ctx isEqual left right = some kept) : kept = left ∨ kept = right := by
  unfold comparedWithBool? at h
  split at h
  · cases h
    exact .inl rfl
  split at h
  · cases h
    exact .inr rfl
  · cases h

/-- An operand is kept, the comparison is replaced by a boolean, or negations are removed on both
sides. -/
theorem checkComparison_fits (ctx : Context) (isEqual : Bool) {whole : Range} {symbol : String}
    {left right : Expr} (h : Expr.Nested place (.binary whole symbol left right)) :
    Finds place whole (checkComparison ctx whole isEqual left right) := by
  have hwhole := h.proper
  unfold checkComparison
  split
  · rename_i kept hkept
    have hpart : kept.PartOf place whole := by
      rcases comparedWithBool?_eq_or hkept with rfl | rfl
      · exact h.left_part
      · exact h.right_part
    exact finds_some.mpr (fits_fixing hwhole.fits_self
      (ctx.keepOnly_fits hwhole hpart.stripParens))
  · exact finds_some.mpr (fits_fixing hwhole.fits_self (ctx.replaceBy_fits hwhole _ _))
  · split
    · -- the edits on both sides lie in their own operands
      rename_i leftNot leftArg rightNot rightArg hleftNot hrightNot
      have hleft := h.left_part
      have hright := h.right_part
      have hgap := (between_cons.mp (between_cons.mp (Expr.nested_operands h)).2.2).1
      rcases negated?_fits hleft.1.1 hleftNot with ⟨hleftFits, hleftLt⟩
      rcases negated?_fits hright.1.1 hrightNot with ⟨hrightFits, -⟩
      have hbefore := hleftFits.le_stop.trans (hgap.trans hrightFits.start_le)
      exact finds_some.mpr (fits_fixing hwhole.fits_self (fixFits_pair
        (hleftFits.mono hleft.1.2.1 hleft.1.2.2) (hrightFits.mono hright.1.2.1 hright.1.2.2)
        hbefore (hleftLt.trans_le (hbefore.trans hrightFits.le))))
    · exact finds_none

theorem equality_fits : equality.Fits place := by
  intro ctx e he
  change Finds place e.range (checkEquality ctx e)
  unfold checkEquality
  split
  · refine finds_ite (fun _ => ?_) fun _ => finds_ite (fun _ => ?_) fun _ => finds_none
    · exact checkComparison_fits ctx true he
    · exact checkComparison_fits ctx false he
  · exact finds_none

end Terse.Rule
