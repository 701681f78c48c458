import Terse.Proofs.Rule.Arity
import Terse.Rule.Collection

/-!
# Simplifications of sets and dictionaries

What is found in calls of the functions of `Set` and `Dict` fits; and each function is treated by
the number of arguments that it takes, but for `Set.intersect`, which is one argument short.
-/

namespace Terse.Rule.Collection

open Library
open Call (FixedWhole FixedInside)

variable {place : Location → Prop}

/-- A call on the empty collection is replaced as a whole. -/
theorem onEmpty_fits (index : Nat) (result : Library → Context → String)
    (shown : Library → String) : CallCheck.Fits place (onEmpty index result shown) := by
  intro lib ctx call h
  unfold onEmpty
  split
  · refine finds_ite (fun _ => ?_) fun _ => finds_none
    exact finds_some.mpr (replaceCall_fits h lib ctx)
  · exact finds_none

theorem emptyStaysEmpty_fits (index : Nat) : CallCheck.Fits place (emptyStaysEmpty index) :=
  onEmpty_fits index _ _

theorem onEmptyBool_fits (index : Nat) (value : Bool) :
    CallCheck.Fits place (onEmptyBool index value) :=
  onEmpty_fits index _ _

theorem onEmptyText_fits (index : Nat) (text : String) :
    CallCheck.Fits place (onEmptyText index text) :=
  onEmpty_fits index _ _

/-- The call is replaced by a pair. -/
theorem partition_fits : CallCheck.Fits place partition := onEmpty_fits 1 _ _

theorem fromList_fits : CallCheck.Fits place fromList := by
  intro lib ctx call h
  unfold fromList
  split
  · refine finds_ite (fun _ => ?_) fun _ => finds_none
    exact finds_some.mpr (replaceCall_fits h lib ctx)
  · exact finds_none

/-- A single element is written behind another function, which replaces the call. -/
theorem setFromList_fits : CallCheck.Fits place setFromList := by
  intro lib ctx call h
  unfold setFromList
  split
  · exact finds_some.mpr (replaceCall_fits h lib ctx)
  · exact fromList_fits lib ctx call h

/-- The set is kept, or the call is replaced. -/
theorem setMap_fits : CallCheck.Fits place setMap := by
  intro lib ctx call h
  unfold setMap
  split
  · exact finds_none
  · refine finds_ite (fun _ => ?_) fun _ => emptyStaysEmpty_fits 1 lib ctx call h
    exact finds_some.mpr (keepArgOrIdentity_fits h lib ctx)

/-- The set is kept, or the empty one is written. -/
theorem setFilter_fits : CallCheck.Fits place setFilter := by
  intro lib ctx call h
  unfold setFilter
  split
  · exact finds_none
  · refine finds_ite (fun _ => ?_) fun _ => finds_ite (fun _ => ?_) fun _ => ?_
    · exact finds_some.mpr (keepArgOrIdentity_fits h lib ctx)
    · exact finds_some.mpr (valueOrAlways_fits h lib ctx)
    · exact emptyStaysEmpty_fits 1 lib ctx call h

/-- The collection beside the empty one is kept. -/
theorem union_fits : CallCheck.Fits place union := by
  intro lib ctx call h
  unfold union
  split
  · rename_i first second hfirst hsecond
    dsimp only
    refine finds_ite (fun _ => ?_) fun _ => finds_ite (fun _ => ?_) fun _ => finds_none
    · exact finds_some.mpr (keepArg_fits h lib ctx (h.arg_part (Call.mem_args_of_arg? hsecond)))
    · exact finds_some.mpr (keepArg_fits h lib ctx (h.arg_part (Call.mem_args_of_arg? hfirst)))
  · exact finds_none

theorem intersect_fits : CallCheck.Fits place intersect := by
  intro lib ctx call h
  unfold intersect
  split
  · exact finds_none
  · refine finds_ite (fun _ => ?_) fun _ => ?_
    · exact emptyStaysEmpty_fits 0 lib ctx call h
    · exact emptyStaysEmpty_fits 1 lib ctx call h

/-- The first set is kept if the second one is empty. -/
theorem diff_fits : CallCheck.Fits place diff := by
  intro lib ctx call h
  unfold diff
  split
  · rename_i first second hfirst hsecond
    refine finds_ite (fun _ => ?_) fun _ => finds_ite (fun _ => ?_) fun _ => finds_none
    · exact emptyStaysEmpty_fits 0 lib ctx call h
    · exact finds_some.mpr (keepArg_fits h lib ctx (h.arg_part (Call.mem_args_of_arg? hfirst)))
  · exact finds_none

/-- What is found in calls of the functions of `Set` fits. -/
theorem setFamily_fits : ∀ c ∈ setFamily.checks, CallCheck.Fits place c.2 := by
  simp only [setFamily, List.forall_mem_cons]
  exact ⟨setMap_fits, setFilter_fits, onEmptyBool_fits 0 true, onEmptyBool_fits 1 false,
    setFromList_fits, onEmptyText_fits 0 "[]", onEmptyText_fits 0 "0", emptyStaysEmpty_fits 1,
    union_fits, intersect_fits, diff_fits, partition_fits, by simp⟩

/-- What is found in calls of the functions of `Dict` fits. -/
theorem dictFamily_fits : ∀ c ∈ dictFamily.checks, CallCheck.Fits place c.2 := by
  simp only [dictFamily, List.forall_mem_cons]
  exact ⟨onEmptyBool_fits 0 true, fromList_fits, onEmptyText_fits 0 "[]", onEmptyText_fits 0 "[]",
    onEmptyText_fits 0 "[]", onEmptyText_fits 0 "0", onEmptyBool_fits 1 false,
    emptyStaysEmpty_fits 1, emptyStaysEmpty_fits 1, union_fits, emptyStaysEmpty_fits 1,
    partition_fits, by simp⟩

/-! ## Arguments -/

section

variable {index n : Nat} {lib : Library} {ctx : Context} {call : Call}

/-- The call is rewritten as a whole, and has the collection among its arguments. -/
theorem onEmpty_whole {result : Library → Context → String} {shown : Library → String}
    (h : ∀ a, call.arg? index = some a → n ≤ call.args.length) :
    Found (fun f => FixedWhole ctx n call f.edits) (onEmpty index result shown lib ctx call) := by
  unfold onEmpty
  split
  · rename_i c hc
    refine found_ite (fun _ => ?_) fun _ => found_none
    exact found_some.mpr (replaceCall_whole lib ctx (h c hc) _ true)
  · exact found_none

/-- Arguments behind the collection are not looked at. -/
@[simp] theorem onEmpty_cut {result : Library → Context → String} {shown : Library → String}
    (h : index < n) :
    onEmpty index result shown lib ctx (call.cut n) = onEmpty index result shown lib ctx call := by
  unfold onEmpty
  rw [Call.cut_arg? h]
  rfl

@[simp] theorem emptyStaysEmpty_cut (h : index < n) :
    emptyStaysEmpty index lib ctx (call.cut n) = emptyStaysEmpty index lib ctx call :=
  onEmpty_cut h

end

/-- The collection is the last argument that is taken. -/
theorem onEmpty_takes (index : Nat) (result : Library → Context → String)
    (shown : Library → String) : (onEmpty index result shown).Takes (index + 1) where
  surplus _ _ _ _ := onEmpty_cut index.lt_succ_self
  whole _ _ _ := onEmpty_whole fun _ => Call.lt_of_arg?

theorem fromList_takes : fromList.Takes 1 where
  surplus lib ctx call hn := by simp [fromList]
  whole lib ctx call := by
    unfold fromList
    split
    · rename_i hl
      refine found_ite (fun _ => ?_) fun _ => found_none
      exact found_some.mpr (replaceCall_whole lib ctx (Call.lt_of_arg? hl) _ true)
    · exact found_none

theorem setFromList_takes : setFromList.Takes 1 where
  surplus lib ctx call hn := by simp [setFromList, fromList_takes.surplus lib ctx call hn]
  whole lib ctx call := by
    unfold setFromList
    split
    · rename_i helements
      exact found_some.mpr (replaceCall_whole lib ctx (Call.lt_of_list? helements) _ false)
    · exact fromList_takes.whole lib ctx call

/-- A function and a set are taken. -/
theorem setMap_takes : setMap.Takes 2 where
  surplus lib ctx call hn := by simp [setMap]
  whole lib ctx call := by
    unfold setMap
    split
    · exact found_none
    · refine found_ite (fun _ => ?_) fun _ => (onEmpty_takes 1 _ _).whole lib ctx call
      exact found_some.mpr (keepArgOrIdentity_whole lib ctx)

theorem setFilter_takes : setFilter.Takes 2 where
  surplus lib ctx call hn := by simp [setFilter, hn]
  whole lib ctx call := by
    unfold setFilter
    split
    · exact found_none
    · refine found_ite (fun _ => ?_) fun _ => found_ite (fun _ => ?_) fun _ =>
        (onEmpty_takes 1 _ _).whole lib ctx call
      · exact found_some.mpr (keepArgOrIdentity_whole lib ctx)
      · exact found_some.mpr (valueOrAlways_whole lib ctx _ true)

/-- Two collections are taken. -/
theorem union_takes : union.Takes 2 where
  surplus lib ctx call hn := by simp [union]
  whole lib ctx call := by
    unfold union
    split
    · rename_i first second hfirst hsecond
      have hlength : 2 ≤ call.args.length := Call.lt_of_arg? hsecond
      dsimp only
      refine found_ite (fun _ => ?_) fun _ => found_ite (fun _ => ?_) fun _ => found_none
      · exact found_some.mpr (keepArg_whole lib ctx hlength
          (Call.mem_take_of_arg? hsecond Nat.one_lt_two) second.mem_nodes_self)
      · exact found_some.mpr (keepArg_whole lib ctx hlength
          (Call.mem_take_of_arg? hfirst Nat.two_pos) first.mem_nodes_self)
    · exact found_none

/-- Of an intersection, no more than two arguments are looked at. -/
theorem intersect_surplus : intersect.IgnoresSurplus 2 := by
  intro lib ctx call hn
  simp [intersect]

/-- A call with the empty collection alone. -/
def HasOnlyEmpty (path : ModuleName) (ctx : Context) (call : Call) : Prop :=
  ∃ a, call.args = [a] ∧ ctx.isReference a path "empty" = true

/-- Any other call of `Set.intersect` is treated by the number of its arguments. -/
theorem intersect_whole {lib : Library} {ctx : Context} {call : Call}
    (h : ¬ HasOnlyEmpty lib.path ctx call) :
    Found (fun f => FixedWhole ctx 2 call f.edits) (intersect lib ctx call) := by
  unfold intersect
  split
  · exact found_none
  · rename_i first hfirst
    refine found_ite (fun hempty => ?_) fun _ => (onEmpty_takes 1 _ _).whole lib ctx call
    refine onEmpty_whole fun _ _ => ?_
    -- with the empty set alone the call would be one argument short
    by_contra hlength
    rcases List.getElem?_eq_some_iff.mp hfirst with ⟨hlt, heq⟩
    refine h ⟨first, ?_, hempty⟩
    rw [List.eq_getElem_of_length_eq_one call.args (by omega), heq]

/-- With the empty set alone, a call of `Set.intersect` becomes a value. -/
theorem intersect_early {lib : Library} {ctx : Context} {call : Call}
    (h : HasOnlyEmpty lib.path ctx call) :
    Found (fun f => f.edits = [ctx.replaceBy call.range (emptyText lib ctx) true])
      (intersect lib ctx call) := by
  rcases h with ⟨a, hargs, hempty⟩
  have ha : call.arg? 0 = some a := by rw [Call.arg?, hargs, List.getElem?_cons_zero]
  have hempty : isEmptyCollection lib ctx a = true := hempty
  simp only [intersect, emptyStaysEmpty, onEmpty, ha, hempty, if_true]
  exact found_some.mpr rfl

/-- Two sets are taken, although the first one may decide. -/
theorem diff_takes : diff.Takes 2 where
  surplus lib ctx call hn := by simp [diff]
  whole lib ctx call := by
    unfold diff
    split
    · rename_i first second hfirst hsecond
      have hlength : 2 ≤ call.args.length := Call.lt_of_arg? hsecond
      refine found_ite (fun _ => ?_) fun _ => found_ite (fun _ => ?_) fun _ => found_none
      · exact onEmpty_whole fun _ _ => hlength
      · exact found_some.mpr (keepArg_whole lib ctx hlength
          (Call.mem_take_of_arg? hfirst Nat.two_pos) first.mem_nodes_self)
    · exact found_none

/-- All functions but one leave a value only when they have all their arguments. -/
theorem setFamily_takes : ∀ c ∈ setFamily.checks, c.1 ∉ ["intersect"] →
    ∃ n, Core.arity? ⟨Core.set, c.1⟩ = some n ∧ c.2.Takes n := by
  simp only [setFamily, List.forall_mem_cons]
  exact ⟨fun _ => ⟨2, rfl, setMap_takes⟩, fun _ => ⟨2, rfl, setFilter_takes⟩,
    fun _ => ⟨1, rfl, onEmpty_takes 0 _ _⟩, fun _ => ⟨2, rfl, onEmpty_takes 1 _ _⟩,
    fun _ => ⟨1, rfl, setFromList_takes⟩, fun _ => ⟨1, rfl, onEmpty_takes 0 _ _⟩,
    fun _ => ⟨1, rfl, onEmpty_takes 0 _ _⟩, fun _ => ⟨2, rfl, onEmpty_takes 1 _ _⟩,
    fun _ => ⟨2, rfl, union_takes⟩, by simp, fun _ => ⟨2, rfl, diff_takes⟩,
    fun _ => ⟨2, rfl, onEmpty_takes 1 _ _⟩, by simp⟩

/-- Each function of `Dict` is treated by the number of arguments that it takes. -/
theorem dictFamily_takes : ∀ c ∈ dictFamily.checks,
    ∃ n, Core.arity? ⟨Core.dict, c.1⟩ = some n ∧ c.2.Takes n := by
  simp only [dictFamily, List.forall_mem_cons]
  exact ⟨⟨1, rfl, onEmpty_takes 0 _ _⟩, ⟨1, rfl, fromList_takes⟩, ⟨1, rfl, onEmpty_takes 0 _ _⟩,
    ⟨1, rfl, onEmpty_takes 0 _ _⟩, ⟨1, rfl, onEmpty_takes 0 _ _⟩,
    ⟨1, rfl, onEmpty_takes 0 _ _⟩, ⟨2, rfl, onEmpty_takes 1 _ _⟩,
    ⟨2, rfl, onEmpty_takes 1 _ _⟩, ⟨2, rfl, onEmpty_takes 1 _ _⟩, ⟨2, rfl, union_takes⟩,
    ⟨2, rfl, onEmpty_takes 1 _ _⟩, ⟨2, rfl, onEmpty_takes 1 _ _⟩, by simp⟩

end Terse.Rule.Collection
