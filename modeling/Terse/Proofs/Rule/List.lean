import Mathlib.Tactic.Order
import Terse.Proofs.Rule.Arity
import Terse.Rule.List

/-!
# Simplifications of lists

What is found in calls of the functions of `List`, and in uses of `++` and `::` on lists, fits; and
each function is treated by the number of arguments that it takes.
-/

namespace Terse.Rule.Lists

open Library
open Call (FixedWhole FixedInside)

variable {place : Location → Prop}

/-! ## Calls that are replaced or shrunk -/

section

variable {call : Call} (h : call.Fills place) (lib : Library) (ctx : Context)
include h

/-- A call is replaced as a whole, so the fix fits. -/
theorem replaceOnEmpty_fits (result : String) :
    (replaceOnEmpty lib ctx call result).Fits place call.range :=
  replaceCall_fits h lib ctx

/-- What is found for an empty list fits into the call. -/
theorem emptyStaysEmpty_fits (index : Nat) :
    Finds place call.range (emptyStaysEmpty lib ctx call index) := by
  unfold emptyStaysEmpty
  split
  · refine finds_ite (fun _ => ?_) fun _ => finds_none
    exact finds_some.mpr (replaceOnEmpty_fits h lib ctx "[]")
  · exact finds_none

/-- A call whose result does not depend on its last argument, or is that argument. -/
theorem keep_or_value_fits {keeps ignores : Bool} {keepMessage valueMessage value : String}
    {index : Nat} {otherwise : Option Finding} (hother : Finds place call.range otherwise) :
    Finds place call.range
      (if keeps then some (lib.keepArgOrIdentity ctx call keepMessage index)
      else if ignores then some (lib.valueOrAlways ctx call valueMessage index value true)
      else otherwise) := by
  refine finds_ite (fun _ => ?_) fun _ => finds_ite (fun _ => ?_) fun _ => hother
  · exact finds_some.mpr (keepArgOrIdentity_fits h lib ctx)
  · exact finds_some.mpr (valueOrAlways_fits h lib ctx)

end

/-- Either the list is kept, or the call is replaced. -/
theorem map_fits : CallCheck.Fits place map := by
  intro lib ctx call h
  unfold map
  split
  · exact finds_none
  · refine finds_ite (fun _ => ?_) fun _ => emptyStaysEmpty_fits h lib ctx 1
    exact finds_some.mpr (keepArgOrIdentity_fits h lib ctx)

theorem indexedMap_fits : CallCheck.Fits place indexedMap := by
  intro lib ctx call h
  exact emptyStaysEmpty_fits h lib ctx 1

theorem filter_fits : CallCheck.Fits place filter := by
  intro lib ctx call h
  unfold filter
  split
  · exact finds_none
  · exact keep_or_value_fits h lib ctx (emptyStaysEmpty_fits h lib ctx 1)

theorem filterMap_fits : CallCheck.Fits place filterMap := by
  intro lib ctx call h
  unfold filterMap
  split
  · exact finds_none
  · exact keep_or_value_fits h lib ctx (emptyStaysEmpty_fits h lib ctx 1)

/-! ## Concatenation -/

/-- The edits that merge the runs of neighbouring lists stand in a line. -/
theorem listRuns_between (ctx : Context) {run es : List Expr} {start stop : Location}
    (h : Between Expr.range (Expr.Nested place) start (run.reverse ++ es) stop) :
    Between Edit.range (fun e => e.range.Proper place) start
      ((listRuns run es).flatMap ctx.mergeLists) stop := by
  have hok : ∀ e : Expr, e.Nested place → e.range.start ≤ e.range.stop := fun _ => Expr.Nested.le
  -- what a run that has ended gives
  have hended : ∀ {run : List Expr} {start stop : Location},
      Between Expr.range (Expr.Nested place) start run.reverse stop →
      Between Edit.range (fun e => e.range.Proper place) start
        ((if 2 ≤ run.length then [run.reverse] else []).flatMap ctx.mergeLists) stop := by
    intro run start stop h
    split
    · rw [List.flatMap_singleton]
      exact (ctx.mergeLists_between h (by simpa)).1
    · rw [List.flatMap_nil, between_nil]
      exact h.le hok
  induction es generalizing run start with
  | nil =>
    rw [List.append_nil] at h
    exact hended h
  | cons e es ih =>
    unfold listRuns
    split
    · apply ih
      simpa using h
    · rcases h.of_append with ⟨middle, hrun, hrest⟩
      rcases between_cons.mp hrest with ⟨hgap, he, hrest⟩
      rw [List.flatMap_append]
      refine (hended hrun).append (ih ?_)
      exact hrest.mono (hgap.trans he.le) le_rfl

/-- The fix removes what stands around the elements and merges them in place, all inside the
call. -/
theorem concatMany_fits {call : Call} (h : call.Fills place) (lib : Library) (ctx : Context)
    {first second : Expr} {rest : List Expr}
    (helements : (call.arg? 0).bind Expr.list? = some (first :: second :: rest)) :
    Finds place call.range
      (concatMany lib ctx call first (rest.getLastD second) (first :: second :: rest)) := by
  have hok : ∀ e : Expr, e.Nested place → e.range.start ≤ e.range.stop := fun _ => Expr.Nested.le
  rcases h.elements_between helements with ⟨opening, closing, hopening, hline, hclosing⟩
  unfold concatMany
  split
  · -- all elements are lists: the brackets of the outer list go, and the lists are merged
    have hlast : rest.getLastD second ∈ first :: second :: rest :=
      List.mem_cons_of_mem first List.getLastD_mem_cons
    have hends : InLine Expr.range (Expr.Nested place) first.range.start (first :: second :: rest)
        (rest.getLastD second).range.stop := by
      have hstop : (first :: second :: rest).getLast? = some (rest.getLastD second) := by
        rw [List.getLast?_cons_cons, List.getLast?_cons, List.getLastD_eq_getLast?]
      have heq := hline.stop_getLast hstop
      exact heq ▸ ⟨le_rfl, hline.2⟩
    have hfirst := hline.2.1
    have hlastOk := hline.ok_of_mem hlast
    have hmerge := ctx.mergeLists_between hends.between (by simp)
    have hstart := hopening.trans_le hline.1
    have hstop := (hline.le_stop hok hlast).trans_lt hclosing
    refine finds_some.mpr (fits_fixing h.fn_fits ?_)
    -- in the order of the text, the second edit stands behind the merged lists
    have hinOrder : Between Edit.range (fun e => e.range.Proper place) call.range.start
        (.remove ⟨call.range.start, first.range.start⟩ ::
          (ctx.mergeLists (first :: second :: rest) ++
            [.remove ⟨(rest.getLastD second).range.stop, call.range.stop⟩])) call.range.stop := by
      refine between_cons.mpr ⟨le_rfl, ⟨hstart, h.range.start, hfirst.proper.start⟩,
        hmerge.1.append (between_cons.mpr ⟨le_rfl, ⟨hstop, hlastOk.proper.stop, h.range.stop⟩, ?_⟩)⟩
      exact between_nil.mpr le_rfl
    exact (fixFits_of_between (by simp) hinOrder).perm (List.perm_append_comm.cons _)
  · dsimp only
    split
    · exact finds_none
    · rename_i hne
      refine finds_some.mpr (fits_fixing h.fn_fits ?_)
      have hall : Between Expr.range (Expr.Nested place) opening
          ([].reverse ++ (first :: second :: rest)) closing := hline.between
      have hruns := listRuns_between ctx hall
      rw [List.isEmpty_iff] at hne
      exact fixFits_of_between hne (hruns.mono hopening.le hclosing.le)

/-- An only element is kept, several are merged. -/
theorem concat_fits : CallCheck.Fits place concat := by
  intro lib ctx call h
  unfold concat
  split
  · exact finds_none
  · exact finds_some.mpr (replaceOnEmpty_fits h lib ctx "[]")
  · rename_i only helements
    exact finds_some.mpr (keepArg_fits h lib ctx (h.element_part helements List.mem_cons_self))
  · rename_i first second rest helements
    exact concatMany_fits h lib ctx helements

/-- With the identity, only the name and the function are rewritten, which both stand in the
call. -/
theorem concatMap_fits : CallCheck.Fits place concatMap := by
  intro lib ctx call h
  unfold concatMap
  split
  · exact finds_none
  · rename_i function hfunction
    refine finds_ite (fun hidentity => ?_) fun _ => finds_ite (fun _ => ?_) fun _ => ?_
    · rw [Bool.and_eq_true] at hidentity
      have hbehind := Call.mem_behind_of_adjacent hfunction hidentity.2
      exact finds_some.mpr (finding_fits h lib (fixFits_single (h.through_behind_fits hbehind)))
    · exact finds_some.mpr (keepArgOrIdentity_fits h lib ctx)
    · exact emptyStaysEmpty_fits h lib ctx 1

/-- One of the two lists is kept, or both are written anew as one. -/
theorem append_fits : CallCheck.Fits place append := by
  intro lib ctx call h
  unfold append
  split
  · rename_i first second hfirst hsecond
    refine finds_ite (fun _ => ?_) fun _ => finds_ite (fun _ => ?_) fun _ => ?_
    · exact finds_some.mpr (keepArg_fits h lib ctx (h.arg_part (Call.mem_args_of_arg? hsecond)))
    · exact finds_some.mpr (keepArg_fits h lib ctx (h.arg_part (Call.mem_args_of_arg? hfirst)))
    · split
      · exact finds_some.mpr (replaceCall_fits h lib ctx)
      · exact finds_none
  · exact finds_none

/-! ## Questions about a list -/

theorem isEmpty_fits : CallCheck.Fits place isEmpty := by
  intro lib ctx call h
  unfold isEmpty
  split
  · exact finds_none
  · exact finds_some.mpr (replaceCall_fits h lib ctx)

/-- The call is replaced by a boolean. -/
theorem quantifier_fits (onEmpty : Bool) : CallCheck.Fits place (quantifier onEmpty) := by
  intro lib ctx call h
  unfold quantifier
  dsimp only
  split
  · exact finds_none
  · refine finds_ite (fun _ => ?_) fun _ => ?_
    · exact finds_some.mpr (valueOrAlways_fits h lib ctx)
    · split
      · refine finds_ite (fun _ => ?_) fun _ => finds_none
        exact finds_some.mpr (replaceCall_fits h lib ctx)
      · exact finds_none

theorem member_fits : CallCheck.Fits place member := by
  intro lib ctx call h
  unfold member
  split
  · exact finds_some.mpr (replaceOnEmpty_fits h lib ctx _)
  · refine finds_ite (fun _ => ?_) fun _ => finds_none
    exact finds_some.mpr (replaceCall_fits h lib ctx)
  · exact finds_none

theorem length_fits : CallCheck.Fits place length := by
  intro lib ctx call h
  unfold length
  split
  · exact finds_none
  · exact finds_some.mpr (replaceCall_fits h lib ctx)

/-! ## Numbers of elements -/

theorem range_fits : CallCheck.Fits place range := by
  intro lib ctx call h
  unfold range
  split
  · refine finds_ite (fun _ => finds_none) fun _ => ?_
    exact finds_some.mpr (replaceCall_fits h lib ctx)
  · exact finds_none

theorem replicate_fits : CallCheck.Fits place replicate := by
  intro lib ctx call h
  unfold replicate
  refine finds_ite (fun _ => ?_) fun _ => ?_
  · exact finds_some.mpr (valueOrAlways_fits h lib ctx)
  · exact finds_none

theorem take_fits : CallCheck.Fits place take := by
  intro lib ctx call h
  unfold take
  refine finds_ite (fun _ => ?_) fun _ => emptyStaysEmpty_fits h lib ctx 1
  exact finds_some.mpr (valueOrAlways_fits h lib ctx)

theorem drop_fits : CallCheck.Fits place drop := by
  intro lib ctx call h
  unfold drop
  refine finds_ite (fun _ => ?_) fun _ => emptyStaysEmpty_fits h lib ctx 1
  exact finds_some.mpr (keepArgOrIdentity_fits h lib ctx)

/-! ## Other results -/

/-- A list of at most one element is kept, or what an inner reversal is given. -/
theorem reverse_fits : CallCheck.Fits place reverse := by
  intro lib ctx call h
  unfold reverse
  split
  · exact finds_none
  · rename_i argument hargument
    -- the argument may be reversed itself, and is then kept without that
    have hpart := h.arg_part (Call.mem_args_of_arg? hargument)
    split
    · exact finds_some.mpr (replaceOnEmpty_fits h lib ctx "[]")
    · exact finds_some.mpr (keepArg_fits h lib ctx hpart)
    · exact finds_none
    · refine finds_map fun inner hinner => ?_
      exact keepArg_fits h lib ctx (hpart.of_lies (Context.argOfCall?_lies hpart.1.1 hinner))

/-- The start value is kept, which stands in the call. -/
theorem fold_fits : CallCheck.Fits place fold := by
  intro lib ctx call h
  unfold fold
  split
  · rename_i initial l hinitial _
    refine finds_ite (fun _ => ?_) fun _ => finds_none
    exact finds_some.mpr (keepArg_fits h lib ctx (h.arg_part (Call.mem_args_of_arg? hinitial)))
  · exact finds_none

theorem partition_fits : CallCheck.Fits place partition := by
  intro lib ctx call h
  unfold partition
  split
  · dsimp only
    refine finds_ite (fun _ => ?_) fun _ => finds_ite (fun _ => ?_) fun _ =>
      finds_ite (fun _ => ?_) fun _ => finds_none
    · exact finds_some.mpr (replaceOnEmpty_fits h lib ctx _)
    · exact finds_some.mpr (replaceCall_fits h lib ctx)
    · exact finds_some.mpr (replaceCall_fits h lib ctx)
  · exact finds_none

theorem head_fits : CallCheck.Fits place head := by
  intro lib ctx call h
  unfold head
  split
  · exact finds_none
  · exact finds_some.mpr (replaceOnEmpty_fits h lib ctx _)
  · exact finds_some.mpr (replaceCall_fits h lib ctx)

theorem tail_fits : CallCheck.Fits place tail := by
  intro lib ctx call h
  unfold tail
  split
  · exact finds_none
  · exact finds_some.mpr (replaceOnEmpty_fits h lib ctx _)
  · exact finds_some.mpr (replaceCall_fits h lib ctx)

theorem extremum_fits : CallCheck.Fits place extremum := by
  intro lib ctx call h
  unfold extremum
  split
  · exact finds_some.mpr (replaceOnEmpty_fits h lib ctx _)
  · exact finds_some.mpr (replaceCall_fits h lib ctx)
  · exact finds_none

/-- The only element is kept, or the neutral number is written. -/
theorem aggregate_fits (neutral : String) : CallCheck.Fits place (aggregate neutral) := by
  intro lib ctx call h
  unfold aggregate
  split
  · exact finds_some.mpr (replaceOnEmpty_fits h lib ctx _)
  · rename_i only helements
    exact finds_some.mpr (keepArg_fits h lib ctx (h.element_part helements List.mem_cons_self))
  · exact finds_none

theorem singleton_fits : CallCheck.Fits place singleton := by
  intro lib ctx call h
  exact finds_map fun value _ => replaceCall_fits h lib ctx

/-- What is found in calls of the functions of `List` fits. -/
theorem family_fits : ∀ c ∈ family.checks, CallCheck.Fits place c.2 := by
  simp only [family, List.forall_mem_cons]
  exact ⟨map_fits, filter_fits, filterMap_fits, concat_fits, concatMap_fits, indexedMap_fits,
    isEmpty_fits, quantifier_fits true, quantifier_fits false, range_fits, length_fits,
    replicate_fits, reverse_fits, fold_fits, fold_fits, partition_fits, head_fits, tail_fits,
    extremum_fits, extremum_fits, member_fits, aggregate_fits "0", aggregate_fits "1", take_fits,
    drop_fits, append_fits, singleton_fits, by simp⟩

/-! ## Operators -/

section

variable {whole : Range} {symbol : String} {left right : Expr}
  (h : Expr.Nested place (.binary whole symbol left right)) (ctx : Context)
include h

/-- One operand of `++` is kept, or both are merged, or the first one becomes a single element. -/
theorem checkConcatOperator_fits :
    Finds place whole (checkConcatOperator ctx whole left right) := by
  have hwhole := h.proper
  have hleft := h.left_part
  have hright := h.right_part
  unfold checkConcatOperator
  dsimp only
  refine finds_ite (fun _ => ?_) fun _ => finds_ite (fun _ => ?_) fun _ => ?_
  · exact finds_some.mpr (fits_fixing hwhole.fits_self
      (ctx.keepOnly_fits hwhole hright.stripParens))
  · exact finds_some.mpr (fits_fixing hwhole.fits_self
      (ctx.keepOnly_fits hwhole hleft.stripParens))
  · split
    · -- two literals become one
      have hline := Expr.nested_operands h
      have hmerge := ctx.mergeLists_between hline (by simp)
      exact finds_some.mpr (fits_fixing hwhole.fits_self (fixFits_of_between hmerge.2 hmerge.1))
    · -- a literal of one element is put before the other list
      have hlt := hleft.1.1.proper.lt
      have hgap := (between_cons.mp (between_cons.mp (Expr.nested_operands h)).2.2).1
      exact finds_some.mpr (fits_fixing hwhole.fits_self (fixFits_single (Range.fits_between
        (by order) hleft.1.2.1 (hright.1.1.le.trans hright.1.2.2) hleft.1.1.proper.start
        hright.1.1.proper.start)))
    · exact finds_none

/-- An element and the list behind `::` are written anew as one list. -/
theorem checkConsOperator_fits :
    Finds place whole (checkConsOperator ctx whole left right) :=
  finds_map fun _ _ => fits_fixing h.proper.fits_self (fixFits_single h.proper.fits_self)

end

theorem rule_fits : rule.Fits place := by
  intro ctx e he
  change Finds place e.range (check ctx e)
  unfold check
  split
  · refine finds_ite (fun _ => ?_) fun _ => finds_ite (fun _ => ?_) fun _ => ?_
    · exact checkConcatOperator_fits he ctx
    · exact checkConsOperator_fits he ctx
    · exact Family.check_fits family_fits ctx he
  · exact Family.check_fits family_fits ctx he

/-! ## Arguments -/

section

variable {call : Call} (lib : Library) (ctx : Context) {index : Nat}

/-- What is found on an empty list is a value, since the list is the last argument. -/
theorem emptyStaysEmpty_whole :
    Found (fun f => FixedWhole ctx (index + 1) call f.edits)
      (emptyStaysEmpty lib ctx call index) := by
  unfold emptyStaysEmpty
  split
  · rename_i harg
    refine found_ite (fun _ => ?_) fun _ => found_none
    exact found_some.mpr (replaceCall_whole lib ctx (Call.lt_of_arg? harg) "[]" true)
  · exact found_none

/-- Further arguments do not change what is said about an empty list. -/
@[simp] theorem replaceOnEmpty_cut {n : Nat} (result : String) :
    replaceOnEmpty lib ctx (call.cut n) result = replaceOnEmpty lib ctx call result := rfl

/-- Only the list itself is looked at. -/
@[simp] theorem emptyStaysEmpty_cut {n : Nat} (h : index < n) :
    emptyStaysEmpty lib ctx (call.cut n) index = emptyStaysEmpty lib ctx call index := by
  unfold emptyStaysEmpty
  rw [Call.cut_arg? h]
  rfl

/-- A call whose result does not depend on its last argument, or is that argument, is rewritten as a
whole. -/
theorem keep_or_value_whole {keeps ignores : Bool} {keepMessage valueMessage value : String}
    {otherwise : Option Finding}
    (hother : Found (fun f => FixedWhole ctx (index + 1) call f.edits) otherwise) :
    Found (fun f => FixedWhole ctx (index + 1) call f.edits)
      (if keeps then some (lib.keepArgOrIdentity ctx call keepMessage index)
      else if ignores then some (lib.valueOrAlways ctx call valueMessage index value true)
      else otherwise) := by
  refine found_ite (fun _ => ?_) fun _ => found_ite (fun _ => ?_) fun _ => hother
  · exact found_some.mpr (keepArgOrIdentity_whole lib ctx)
  · exact found_some.mpr (valueOrAlways_whole lib ctx value true)

end

/-- The list is the second argument, and with it the call is worth a list. -/
theorem map_takes : map.Takes 2 where
  surplus lib ctx call hn := by simp [map]
  whole lib ctx call := by
    unfold map
    split
    · exact found_none
    · refine found_ite (fun _ => ?_) fun _ => emptyStaysEmpty_whole lib ctx
      exact found_some.mpr (keepArgOrIdentity_whole lib ctx)

theorem indexedMap_takes : indexedMap.Takes 2 where
  surplus lib ctx call hn := by simp [indexedMap]
  whole lib ctx call := emptyStaysEmpty_whole lib ctx

theorem filter_takes : filter.Takes 2 where
  surplus lib ctx call hn := by simp [filter, hn]
  whole lib ctx call := by
    unfold filter
    split
    · exact found_none
    · exact keep_or_value_whole lib ctx (emptyStaysEmpty_whole lib ctx)

theorem filterMap_takes : filterMap.Takes 2 where
  surplus lib ctx call hn := by simp [filterMap, hn]
  whole lib ctx call := by
    unfold filterMap
    split
    · exact found_none
    · exact keep_or_value_whole lib ctx (emptyStaysEmpty_whole lib ctx)

/-- The call concatenates two elements or more, and not all of them are lists. -/
def JoinsSome (call : Call) : Prop :=
  ∃ elements, (call.arg? 0).bind Expr.list? = some elements ∧ 2 ≤ elements.length ∧
    ∃ e ∈ elements, e.list? = none

/-- Not all elements are lists if one of them is none. -/
theorem all_lists_eq_false_iff {elements : List Expr} :
    elements.all (·.list?.isSome) = false ↔ ∃ e ∈ elements, e.list? = none := by
  simp only [List.all_eq_false, Option.not_isSome_iff_eq_none]

/-- Further arguments do not change how elements are merged. -/
theorem concatMany_surplus (lib : Library) (ctx : Context) (call : Call) (n : Nat)
    (first last : Expr) (elements : List Expr) :
    concatMany lib ctx (call.cut n) first last elements =
      concatMany lib ctx call first last elements := rfl

/-- Only if all elements are lists does the call go. -/
theorem concat_takes : concat.TakesOr 1 fun _ _ call => JoinsSome call where
  surplus lib ctx call hn := by simp [concat, concatMany_surplus]
  inside lib ctx call h := by
    rcases h with ⟨elements, helements, htwo, hsome⟩
    have hlength := Call.lt_of_list? helements
    unfold concat
    rw [helements]
    rcases exists_cons_cons htwo with ⟨first, second, rest, rfl⟩
    dsimp only
    unfold concatMany
    rw [if_neg (Bool.eq_false_iff.mp (all_lists_eq_false_iff.mpr hsome))]
    refine found_ite (fun _ => found_none) fun _ => ?_
    rcases Option.bind_eq_some_iff.mp helements with ⟨a, ha, hlist⟩
    refine found_some.mpr (.elements Nat.one_pos hlength ha hlist fun place start stop h => ?_)
    exact listRuns_between ctx h
  whole lib ctx call h := by
    unfold concat
    split
    · exact found_none
    · rename_i helements
      exact found_some.mpr (replaceCall_whole lib ctx (Call.lt_of_list? helements) "[]" true)
    · rename_i only helements
      exact found_some.mpr (keepElement_whole lib ctx helements List.mem_cons_self)
    · rename_i first second rest helements
      -- an element that is no list would have kept the call
      have hall : (first :: second :: rest).all (·.list?.isSome) = true := by
        by_contra hall
        rw [Bool.not_eq_true, all_lists_eq_false_iff] at hall
        exact h ⟨_, helements, by simp, hall⟩
      unfold concatMany
      rw [if_pos hall]
      have hlast : rest.getLastD second ∈ first :: second :: rest :=
        List.mem_cons_of_mem first List.getLastD_mem_cons
      rcases Option.bind_eq_some_iff.mp helements with ⟨a, ha, hlist⟩
      exact found_some.mpr (.joined (Call.lt_of_arg? ha) (Call.mem_take_of_arg? ha Nat.one_pos)
        hlist List.mem_cons_self hlast)

/-- The function is the identity, written behind the name of what is called. -/
def JoinsWithIdentity (ctx : Context) (call : Call) : Prop :=
  ∃ function, call.arg? 0 = some function ∧ ctx.isIdentity function = true ∧
    call.argIsAdjacent 0 = true

/-- Two arguments are taken, unless the identity makes the call one of `List.concat`. -/
theorem concatMap_takes : concatMap.TakesOr 2 fun _ ctx call => JoinsWithIdentity ctx call where
  surplus lib ctx call hn := by simp [concatMap, hn]
  inside lib ctx call h := by
    rcases h with ⟨function, hfunction, hidentity, hadjacent⟩
    simp only [concatMap, hfunction, hidentity, hadjacent, Bool.and_self, if_true]
    exact found_some.mpr (.renamed rfl hfunction)
  whole lib ctx call h := by
    unfold concatMap
    split
    · exact found_none
    · rename_i function hfunction
      refine found_ite (fun hidentity => ?_) fun _ => found_ite (fun _ => ?_) fun _ =>
        emptyStaysEmpty_whole lib ctx
      · rw [Bool.and_eq_true] at hidentity
        exact absurd ⟨function, hfunction, hidentity⟩ h
      · exact found_some.mpr (keepArgOrIdentity_whole lib ctx)

theorem append_takes : append.Takes 2 where
  surplus lib ctx call hn := by simp [append]
  whole lib ctx call := by
    unfold append
    split
    · rename_i first second hfirst hsecond
      have hlength : 2 ≤ call.args.length := Call.lt_of_arg? hsecond
      refine found_ite (fun _ => ?_) fun _ => found_ite (fun _ => ?_) fun _ => ?_
      · exact found_some.mpr (keepArg_whole lib ctx hlength
          (Call.mem_take_of_arg? hsecond Nat.one_lt_two) second.mem_nodes_self)
      · exact found_some.mpr (keepArg_whole lib ctx hlength
          (Call.mem_take_of_arg? hfirst Nat.two_pos) first.mem_nodes_self)
      · split
        · exact found_some.mpr (replaceCall_whole lib ctx hlength _ true)
        · exact found_none
    · exact found_none

theorem isEmpty_takes : isEmpty.Takes 1 where
  surplus lib ctx call hn := by simp [isEmpty]
  whole lib ctx call := by
    unfold isEmpty
    split
    · exact found_none
    · rename_i helements
      exact found_some.mpr (replaceCall_whole lib ctx (Call.lt_of_list? helements) _ true)

/-- A test and a list are taken. -/
theorem quantifier_takes (onEmpty : Bool) : (quantifier onEmpty).Takes 2 where
  surplus lib ctx call hn := by simp [quantifier, hn]
  whole lib ctx call := by
    unfold quantifier
    dsimp only
    split
    · exact found_none
    · refine found_ite (fun _ => ?_) fun _ => ?_
      · exact found_some.mpr (valueOrAlways_whole lib ctx _ true)
      · split
        · rename_i hl
          refine found_ite (fun _ => ?_) fun _ => found_none
          exact found_some.mpr (replaceCall_whole lib ctx (Call.lt_of_arg? hl) _ true)
        · exact found_none

theorem member_takes : member.Takes 2 where
  surplus lib ctx call hn := by simp [member]
  whole lib ctx call := by
    unfold member
    split
    · rename_i helements
      exact found_some.mpr (replaceCall_whole lib ctx (Call.lt_of_list? helements) _ true)
    · rename_i helements
      refine found_ite (fun _ => ?_) fun _ => found_none
      exact found_some.mpr (replaceCall_whole lib ctx (Call.lt_of_list? helements) _ true)
    · exact found_none

theorem length_takes : length.Takes 1 where
  surplus lib ctx call hn := by simp [length]
  whole lib ctx call := by
    unfold length
    split
    · exact found_none
    · rename_i helements
      exact found_some.mpr (replaceCall_whole lib ctx (Call.lt_of_list? helements) _ true)

theorem range_takes : range.Takes 2 where
  surplus lib ctx call hn := by simp [range]
  whole lib ctx call := by
    unfold range
    split
    · rename_i hhigh
      refine found_ite (fun _ => found_none) fun _ => ?_
      rcases Option.bind_eq_some_iff.mp hhigh with ⟨a, ha, -⟩
      exact found_some.mpr (replaceCall_whole lib ctx (Call.lt_of_arg? ha) "[]" true)
    · exact found_none

/-- A number that is not positive stays one without the arguments behind it. -/
@[simp] theorem isNotPositive_cut {call : Call} {n index : Nat} (h : index < n) :
    isNotPositive (call.cut n) index = isNotPositive call index := by
  unfold isNotPositive
  rw [Call.cut_arg? h]

theorem replicate_takes : replicate.Takes 2 where
  surplus lib ctx call hn := by simp [replicate, hn]
  whole lib ctx call := by
    unfold replicate
    refine found_ite (fun _ => ?_) fun _ => found_none
    exact found_some.mpr (valueOrAlways_whole lib ctx "[]" true)

theorem take_takes : take.Takes 2 where
  surplus lib ctx call hn := by simp [take, hn]
  whole lib ctx call := by
    unfold take
    refine found_ite (fun _ => ?_) fun _ => emptyStaysEmpty_whole lib ctx
    exact found_some.mpr (valueOrAlways_whole lib ctx "[]" true)

theorem drop_takes : drop.Takes 2 where
  surplus lib ctx call hn := by simp [drop]
  whole lib ctx call := by
    unfold drop
    refine found_ite (fun _ => ?_) fun _ => emptyStaysEmpty_whole lib ctx
    exact found_some.mpr (keepArgOrIdentity_whole lib ctx)

theorem reverse_takes : reverse.Takes 1 where
  surplus lib ctx call hn := by simp [reverse]
  whole lib ctx call := by
    unfold reverse
    split
    · exact found_none
    · rename_i argument hargument
      have hlength := Call.lt_of_arg? hargument
      have hmem := Call.mem_take_of_arg? hargument Nat.one_pos
      split
      · exact found_some.mpr (replaceCall_whole lib ctx hlength "[]" true)
      · exact found_some.mpr (keepArg_whole lib ctx hlength hmem argument.mem_nodes_self)
      · exact found_none
      · exact found_map fun inner hinner =>
          keepArg_whole lib ctx hlength hmem (Context.mem_nodes_of_argOfCall? hinner)

/-- A function, a start value and a list are taken. -/
theorem fold_takes : fold.Takes 3 where
  surplus lib ctx call hn := by simp [fold]
  whole lib ctx call := by
    unfold fold
    split
    · rename_i initial l hinitial hl
      refine found_ite (fun _ => ?_) fun _ => found_none
      exact found_some.mpr (keepArg_whole lib ctx (Call.lt_of_arg? hl)
        (Call.mem_take_of_arg? hinitial (by decide)) initial.mem_nodes_self)
    · exact found_none

theorem partition_takes : partition.Takes 2 where
  surplus lib ctx call hn := by simp [partition]
  whole lib ctx call := by
    unfold partition
    split
    · rename_i hl
      have hlength : 2 ≤ call.args.length := Call.lt_of_arg? hl
      dsimp only
      refine found_ite (fun _ => ?_) fun _ => found_ite (fun _ => ?_) fun _ =>
        found_ite (fun _ => ?_) fun _ => found_none
      all_goals exact found_some.mpr (replaceCall_whole lib ctx hlength _ true)
    · exact found_none

theorem head_takes : head.Takes 1 where
  surplus lib ctx call hn := by simp [head, nothingOnEmpty]
  whole lib ctx call := by
    unfold head
    split
    · exact found_none
    all_goals
      rename_i helements
      exact found_some.mpr (replaceCall_whole lib ctx (Call.lt_of_list? helements) _ _)

theorem tail_takes : tail.Takes 1 where
  surplus lib ctx call hn := by simp [tail, nothingOnEmpty]
  whole lib ctx call := by
    unfold tail
    split
    · exact found_none
    all_goals
      rename_i helements
      exact found_some.mpr (replaceCall_whole lib ctx (Call.lt_of_list? helements) _ _)

/-- A list is taken, and nothing else. -/
theorem extremum_takes : extremum.Takes 1 where
  surplus lib ctx call hn := by simp [extremum, nothingOnEmpty]
  whole lib ctx call := by
    unfold extremum
    split
    · rename_i helements
      exact found_some.mpr (replaceCall_whole lib ctx (Call.lt_of_list? helements) _ true)
    · rename_i helements
      exact found_some.mpr (replaceCall_whole lib ctx (Call.lt_of_list? helements) _ false)
    · exact found_none

theorem aggregate_takes (neutral : String) : (aggregate neutral).Takes 1 where
  surplus lib ctx call hn := by simp [aggregate]
  whole lib ctx call := by
    unfold aggregate
    split
    · rename_i helements
      exact found_some.mpr (replaceCall_whole lib ctx (Call.lt_of_list? helements) _ true)
    · rename_i only helements
      exact found_some.mpr (keepElement_whole lib ctx helements List.mem_cons_self)
    · exact found_none

theorem singleton_takes : singleton.Takes 1 where
  surplus lib ctx call hn := by simp [singleton]
  whole lib ctx call :=
    found_map fun value hvalue => replaceCall_whole lib ctx (Call.lt_of_arg? hvalue) _ true

/-- All functions but two are only rewritten as a whole. -/
theorem family_takes : ∀ c ∈ family.checks, c.1 ∉ ["concat", "concatMap"] →
    ∃ n, Core.arity? ⟨Core.list, c.1⟩ = some n ∧ c.2.Takes n := by
  simp only [family, List.forall_mem_cons]
  exact ⟨fun _ => ⟨2, rfl, map_takes⟩, fun _ => ⟨2, rfl, filter_takes⟩,
    fun _ => ⟨2, rfl, filterMap_takes⟩, by simp, by simp, fun _ => ⟨2, rfl, indexedMap_takes⟩,
    fun _ => ⟨1, rfl, isEmpty_takes⟩, fun _ => ⟨2, rfl, quantifier_takes true⟩,
    fun _ => ⟨2, rfl, quantifier_takes false⟩, fun _ => ⟨2, rfl, range_takes⟩,
    fun _ => ⟨1, rfl, length_takes⟩, fun _ => ⟨2, rfl, replicate_takes⟩,
    fun _ => ⟨1, rfl, reverse_takes⟩, fun _ => ⟨3, rfl, fold_takes⟩,
    fun _ => ⟨3, rfl, fold_takes⟩, fun _ => ⟨2, rfl, partition_takes⟩,
    fun _ => ⟨1, rfl, head_takes⟩, fun _ => ⟨1, rfl, tail_takes⟩,
    fun _ => ⟨1, rfl, extremum_takes⟩, fun _ => ⟨1, rfl, extremum_takes⟩,
    fun _ => ⟨2, rfl, member_takes⟩, fun _ => ⟨1, rfl, aggregate_takes "0"⟩,
    fun _ => ⟨1, rfl, aggregate_takes "1"⟩, fun _ => ⟨2, rfl, take_takes⟩,
    fun _ => ⟨2, rfl, drop_takes⟩, fun _ => ⟨2, rfl, append_takes⟩,
    fun _ => ⟨1, rfl, singleton_takes⟩, by simp⟩

end Terse.Rule.Lists
