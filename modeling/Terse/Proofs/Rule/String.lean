import Terse.Proofs.Rule.Arity
import Terse.Rule.String

/-!
# Simplifications of texts

What is found in calls of the functions of `String`, and in uses of `++` on texts, fits; and each
function is treated by the number of arguments that it takes.
-/

namespace Terse.Rule.Strings

open Library
open Call (FixedWhole FixedInside)

variable {place : Location → Prop}

/-- A call on an empty text is replaced as a whole. -/
theorem onEmptyString_fits {call : Call} (h : call.Fills place) (lib : Library) (ctx : Context)
    (index : Nat) (result : String) :
    Finds place call.range (onEmptyString lib ctx call index result) := by
  unfold onEmptyString
  split
  · refine finds_ite (fun _ => ?_) fun _ => finds_none
    exact finds_some.mpr (replaceCall_fits h lib ctx)
  · exact finds_none

theorem isEmpty_fits : CallCheck.Fits place isEmpty := by
  intro lib ctx call h
  unfold isEmpty
  split
  · exact finds_none
  · exact finds_some.mpr (replaceCall_fits h lib ctx)

/-- Only the empty list is reported, and the call is replaced. -/
theorem concat_fits : CallCheck.Fits place concat := by
  intro lib ctx call h
  unfold concat
  split
  · refine finds_ite (fun _ => ?_) fun _ => finds_none
    exact finds_some.mpr (replaceCall_fits h lib ctx)
  · exact finds_none

/-- With an empty separator, only the name and the separator are rewritten, which both stand in the
call. -/
theorem join_fits : CallCheck.Fits place join := by
  intro lib ctx call h
  unfold join
  split
  · exact finds_none
  · rename_i separator hseparator
    refine finds_ite (fun _ => ?_) fun _ => finds_ite (fun hempty => ?_) fun _ => finds_none
    · exact finds_some.mpr (replaceCall_fits h lib ctx)
    · rw [Bool.and_eq_true] at hempty
      have hbehind := Call.mem_behind_of_adjacent hseparator hempty.2
      exact finds_some.mpr (fits_fixing h.fn_fits
        (fixFits_single (h.through_behind_fits hbehind)))

theorem length_fits : CallCheck.Fits place length := by
  intro lib ctx call h
  unfold length
  split
  · exact finds_none
  · exact finds_some.mpr (replaceCall_fits h lib ctx)

/-- A text that is repeated once is kept, all other calls are replaced. -/
theorem replicate_fits : CallCheck.Fits place replicate := by
  intro lib ctx call h
  unfold replicate
  dsimp only
  refine finds_ite (fun _ => ?_) fun _ => finds_ite (fun _ => ?_) fun _ => ?_
  · exact finds_some.mpr (valueOrAlways_fits h lib ctx)
  · exact finds_some.mpr (keepArgOrIdentity_fits h lib ctx)
  · exact onEmptyString_fits h lib ctx 1 emptyText

theorem split_fits : CallCheck.Fits place Strings.split := by
  intro lib ctx call h
  exact onEmptyString_fits h lib ctx 0 "[]"

/-- What an inner reversal is given is kept. -/
theorem reverse_fits : CallCheck.Fits place reverse := by
  intro lib ctx call h
  have hempty := onEmptyString_fits h lib ctx 0 emptyText
  unfold reverse
  split
  · rename_i finding hfinding
    exact finds_some.mpr (hempty finding hfinding)
  · refine finds_map fun inner hinner => ?_
    rcases Option.bind_eq_some_iff.mp hinner with ⟨argument, hargument, hinner⟩
    have hpart := h.arg_part (Call.mem_args_of_arg? hargument)
    exact keepArg_fits h lib ctx (hpart.of_lies (Context.argOfCall?_lies hpart.1.1 hinner))

theorem fromList_fits : CallCheck.Fits place fromList := by
  intro lib ctx call h
  unfold fromList
  split
  · exact finds_some.mpr (replaceCall_fits h lib ctx)
  · exact finds_some.mpr (replaceCall_fits h lib ctx)
  · exact finds_none

/-- What is left of two texts is one of them. -/
theorem besideEmpty?_eq_or {first second kept : Expr}
    (h : besideEmpty? first second = some kept) : kept = first ∨ kept = second := by
  unfold besideEmpty? at h
  split at h
  · cases h
    exact .inr rfl
  split at h
  · cases h
    exact .inl rfl
  · cases h

/-- The text beside the empty one is kept. -/
theorem append_fits : CallCheck.Fits place append := by
  intro lib ctx call h
  unfold append
  split
  · rename_i first second hfirst hsecond
    refine finds_map fun kept hkept => keepArg_fits h lib ctx ?_
    rcases besideEmpty?_eq_or hkept with rfl | rfl
    · exact h.arg_part (Call.mem_args_of_arg? hfirst)
    · exact h.arg_part (Call.mem_args_of_arg? hsecond)
  · exact finds_none

/-- What is found in calls of the functions of `String` fits. -/
theorem family_fits : ∀ c ∈ family.checks, CallCheck.Fits place c.2 := by
  simp only [family, List.forall_mem_cons]
  exact ⟨isEmpty_fits, concat_fits, join_fits, length_fits, replicate_fits, split_fits, split_fits,
    reverse_fits, fromList_fits, append_fits, by simp⟩

/-- The operand beside the empty text is kept. -/
theorem checkAppendOperator_fits {whole : Range} {symbol : String} {left right : Expr}
    (h : Expr.Nested place (.binary whole symbol left right)) (ctx : Context) :
    Finds place whole (checkAppendOperator ctx whole left right) := by
  refine finds_map fun kept hkept => ?_
  have hpart : kept.PartOf place whole := by
    rcases besideEmpty?_eq_or hkept with rfl | rfl
    · exact h.left_part
    · exact h.right_part
  exact fits_fixing h.proper.fits_self (ctx.keepOnly_fits h.proper hpart.stripParens)

/-- What is found in texts fits, in calls and around `++`. -/
theorem rule_fits : rule.Fits place := by
  intro ctx e he
  change Finds place e.range (check ctx e)
  unfold check
  split
  · refine finds_ite (fun _ => ?_) fun _ => ?_
    · exact checkAppendOperator_fits he ctx
    · exact Family.check_fits family_fits ctx he
  · exact Family.check_fits family_fits ctx he

/-! ## Arguments -/

section

variable {call : Call} (lib : Library) (ctx : Context) {index : Nat} (result : String)

/-- A call on an empty text is rewritten as a whole, and has all arguments up to the text. -/
theorem onEmptyString_whole :
    Found (fun f => FixedWhole ctx (index + 1) call f.edits)
      (onEmptyString lib ctx call index result) := by
  unfold onEmptyString
  split
  · rename_i hs
    refine found_ite (fun _ => ?_) fun _ => found_none
    exact found_some.mpr (replaceCall_whole lib ctx (Call.lt_of_arg? hs) result true)
  · exact found_none

/-- Further arguments are not looked at. -/
@[simp] theorem onEmptyString_cut {n : Nat} (h : index < n) :
    onEmptyString lib ctx (call.cut n) index result = onEmptyString lib ctx call index result := by
  unfold onEmptyString
  rw [Call.cut_arg? h]
  rfl

end

theorem isEmpty_takes : isEmpty.Takes 1 where
  surplus lib ctx call hn := by simp [isEmpty]
  whole lib ctx call := by
    unfold isEmpty
    split
    · exact found_none
    · rename_i hs
      rcases Option.bind_eq_some_iff.mp hs with ⟨a, ha, -⟩
      exact found_some.mpr (replaceCall_whole lib ctx (Call.lt_of_arg? ha) _ true)

theorem concat_takes : concat.Takes 1 where
  surplus lib ctx call hn := by simp [concat]
  whole lib ctx call := by
    unfold concat
    split
    · rename_i hl
      refine found_ite (fun _ => ?_) fun _ => found_none
      exact found_some.mpr (replaceCall_whole lib ctx (Call.lt_of_arg? hl) emptyText true)
    · exact found_none

/-- The separator is the empty text, written behind the name of what is called, and the list is not
known to be empty. -/
def JoinsWithNothing (call : Call) : Prop :=
  hasEmptyList call 1 = false ∧ ∃ separator, call.arg? 0 = some separator ∧
    separator.isEmptyString = true ∧ call.argIsAdjacent 0 = true

/-- An argument that is the empty list is there. -/
theorem lt_of_hasEmptyList {call : Call} {index : Nat} (h : hasEmptyList call index = true) :
    index < call.args.length := by
  unfold hasEmptyList at h
  split at h
  · exact Call.lt_of_arg? ‹_›
  · cases h

/-- Further arguments do not make a list empty. -/
@[simp] theorem hasEmptyList_cut {call : Call} {n index : Nat} (h : index < n) :
    hasEmptyList (call.cut n) index = hasEmptyList call index := by
  unfold hasEmptyList
  rw [Call.cut_arg? h]

/-- A separator and a list are taken, unless the empty separator makes the call one of
`String.concat`. -/
theorem join_takes : join.TakesOr 2 fun _ _ call => JoinsWithNothing call where
  surplus lib ctx call hn := by simp [join, hn]
  inside lib ctx call h := by
    rcases h with ⟨hl, separator, hseparator, hempty, hadjacent⟩
    unfold join
    rw [hseparator]
    simp only [hl, hempty, hadjacent, Bool.and_self, if_true, Bool.false_eq_true, if_false]
    exact found_some.mpr (.renamed rfl hseparator)
  whole lib ctx call h := by
    unfold join
    split
    · exact found_none
    · rename_i separator hseparator
      refine found_ite (fun hl => ?_) fun hl => found_ite (fun hempty => ?_) fun _ => found_none
      · exact found_some.mpr (replaceCall_whole lib ctx (lt_of_hasEmptyList hl) emptyText true)
      · rw [Bool.and_eq_true] at hempty
        exact absurd ⟨Bool.eq_false_iff.mpr hl, separator, hseparator, hempty⟩ h

theorem length_takes : length.Takes 1 where
  surplus lib ctx call hn := by simp [length]
  whole lib ctx call := by
    unfold length
    split
    · exact found_none
    · rename_i hs
      rcases Option.bind_eq_some_iff.mp hs with ⟨a, ha, -⟩
      exact found_some.mpr (replaceCall_whole lib ctx (Call.lt_of_arg? ha) _ true)

/-- A number and a text are taken. -/
theorem replicate_takes : replicate.Takes 2 where
  surplus lib ctx call hn := by simp [replicate, hn]
  whole lib ctx call := by
    unfold replicate
    dsimp only
    refine found_ite (fun _ => ?_) fun _ => found_ite (fun _ => ?_) fun _ => ?_
    · exact found_some.mpr (valueOrAlways_whole lib ctx emptyText true)
    · exact found_some.mpr (keepArgOrIdentity_whole lib ctx)
    · exact onEmptyString_whole lib ctx emptyText

/-- One text is taken, by words and by lines. -/
theorem split_takes : Strings.split.Takes 1 where
  surplus lib ctx call hn := by simp [Strings.split]
  whole lib ctx call := onEmptyString_whole lib ctx "[]"

theorem reverse_takes : reverse.Takes 1 where
  surplus lib ctx call hn := by simp [reverse]
  whole lib ctx call := by
    have hempty : Found (fun f => FixedWhole ctx 1 call f.edits)
        (onEmptyString lib ctx call 0 emptyText) := onEmptyString_whole lib ctx emptyText
    unfold reverse
    split
    · rename_i finding hfinding
      exact found_some.mpr (hempty finding hfinding)
    · refine found_map fun inner hinner => ?_
      rcases Option.bind_eq_some_iff.mp hinner with ⟨argument, hargument, hinner⟩
      exact keepArg_whole lib ctx (Call.lt_of_arg? hargument)
        (Call.mem_take_of_arg? hargument Nat.one_pos) (Context.mem_nodes_of_argOfCall? hinner)

theorem fromList_takes : fromList.Takes 1 where
  surplus lib ctx call hn := by simp [fromList]
  whole lib ctx call := by
    unfold fromList
    split
    · rename_i helements
      exact found_some.mpr (replaceCall_whole lib ctx (Call.lt_of_list? helements) emptyText true)
    · rename_i helements
      exact found_some.mpr (replaceCall_whole lib ctx (Call.lt_of_list? helements) _ false)
    · exact found_none

/-- Two texts are taken. -/
theorem append_takes : append.Takes 2 where
  surplus lib ctx call hn := by simp [append]
  whole lib ctx call := by
    unfold append
    split
    · rename_i first second hfirst hsecond
      have hlength : 2 ≤ call.args.length := Call.lt_of_arg? hsecond
      refine found_map fun kept hkept => ?_
      rcases besideEmpty?_eq_or hkept with rfl | rfl
      · exact keepArg_whole lib ctx hlength (Call.mem_take_of_arg? hfirst Nat.two_pos)
          kept.mem_nodes_self
      · exact keepArg_whole lib ctx hlength (Call.mem_take_of_arg? hsecond Nat.one_lt_two)
          kept.mem_nodes_self
    · exact found_none

/-- All functions but one are only rewritten as a whole. -/
theorem family_takes : ∀ c ∈ family.checks, c.1 ∉ ["join"] →
    ∃ n, Core.arity? ⟨Core.string, c.1⟩ = some n ∧ c.2.Takes n := by
  simp only [family, List.forall_mem_cons]
  exact ⟨fun _ => ⟨1, rfl, isEmpty_takes⟩, fun _ => ⟨1, rfl, concat_takes⟩, by simp,
    fun _ => ⟨1, rfl, length_takes⟩, fun _ => ⟨2, rfl, replicate_takes⟩,
    fun _ => ⟨1, rfl, split_takes⟩, fun _ => ⟨1, rfl, split_takes⟩,
    fun _ => ⟨1, rfl, reverse_takes⟩, fun _ => ⟨1, rfl, fromList_takes⟩,
    fun _ => ⟨2, rfl, append_takes⟩, by simp⟩

end Terse.Rule.Strings
