import Terse.Proofs.Rule.Arity
import Terse.Rule.Wrapped

/-!
# Simplifications of wrapped values

What is found in calls of the functions of `Maybe` and `Result` fits; and each function is treated
by the number of arguments that it takes.
-/

namespace Terse.Rule.Wrapped

open Library
open Call (FixedWhole FixedInside)

variable {place : Location → Prop}

section

variable {call : Call} (h : call.Fills place) (lib : Library) (ctx : Context) {index : Nat}
  {value : Expr} (hvalue : call.arg? index = some value)
include h hvalue

/-- A value that is passed through is kept. -/
theorem passThrough_fits (shape : Shape) :
    (passThrough lib ctx call shape value).Fits place call.range :=
  keepArg_fits h lib ctx (h.arg_part (Call.mem_args_of_arg? hvalue))

/-- What a constructor holds in an argument is a part of the call. -/
theorem payload_part {constructor : String} {payload : Expr}
    (hpayload : payload? lib ctx value constructor = some payload) :
    payload.PartOf place call.range := by
  have hpart := h.arg_part (Call.mem_args_of_arg? hvalue)
  exact hpart.of_lies (Context.argOfCall?_lies hpart.1.1 hpayload)

end

/-- The value is kept, or made anew from the function and what the value held. -/
theorem mapLike_fits (shape : Shape) : CallCheck.Fits place (mapLike shape) := by
  intro lib ctx call h
  unfold mapLike
  dsimp only
  split
  · exact finds_none
  · refine finds_ite (fun _ => ?_) fun _ => ?_
    · exact finds_some.mpr (keepArgOrIdentity_fits h lib ctx)
    · split
      · exact finds_none
      · rename_i value hvalue
        refine finds_ite (fun _ => ?_) fun _ => ?_
        · exact finds_some.mpr (passThrough_fits h lib ctx hvalue shape)
        · exact finds_map fun _ _ => replaceCall_fits h lib ctx

/-- The value is kept, or the function is applied to what the value held. -/
theorem andThenLike_fits (shape : Shape) : CallCheck.Fits place (andThenLike shape) := by
  intro lib ctx call h
  unfold andThenLike
  dsimp only
  split
  · exact finds_none
  · refine finds_ite (fun _ => ?_) fun _ => ?_
    · exact finds_some.mpr (keepArgOrIdentity_fits h lib ctx)
    · split
      · exact finds_none
      · rename_i value hvalue
        refine finds_ite (fun _ => ?_) fun _ => ?_
        · exact finds_some.mpr (passThrough_fits h lib ctx hvalue shape)
        · exact finds_map fun _ _ => replaceCall_fits h lib ctx

/-- What the value holds is kept, or the default. -/
theorem withDefaultLike_fits (shape : Shape) : CallCheck.Fits place (withDefaultLike shape) := by
  intro lib ctx call h
  unfold withDefaultLike
  dsimp only
  split
  · rename_i fallback value hfallback hvalue
    split
    · rename_i payload hpayload
      exact finds_some.mpr (keepArg_fits h lib ctx (payload_part h lib ctx hvalue hpayload))
    · refine finds_ite (fun _ => ?_) fun _ => finds_none
      exact finds_some.mpr (keepArg_fits h lib ctx (h.arg_part (Call.mem_args_of_arg? hfallback)))
  · exact finds_none

/-- The call is replaced by an optional value. -/
theorem toMaybe_fits : CallCheck.Fits place toMaybe := by
  intro lib ctx call h
  unfold toMaybe
  split
  · exact finds_none
  · split
    · exact finds_some.mpr (replaceCall_fits h lib ctx)
    · refine finds_ite (fun _ => ?_) fun _ => finds_none
      exact finds_some.mpr (replaceCall_fits h lib ctx)

theorem maybeFamily_fits : ∀ c ∈ maybeFamily.checks, CallCheck.Fits place c.2 := by
  simp only [maybeFamily, List.forall_mem_cons]
  exact ⟨mapLike_fits justShape, andThenLike_fits justShape, withDefaultLike_fits justShape,
    by simp⟩

/-- What is found in calls of the functions of `Result` fits. -/
theorem resultFamily_fits : ∀ c ∈ resultFamily.checks, CallCheck.Fits place c.2 := by
  simp only [resultFamily, List.forall_mem_cons]
  exact ⟨mapLike_fits okShape, mapLike_fits errShape, andThenLike_fits okShape,
    withDefaultLike_fits okShape, toMaybe_fits, by simp⟩

/-! ## Arguments -/

section

variable {call : Call} (lib : Library) (ctx : Context) {value : Expr}
  (hvalue : call.arg? 1 = some value)
include hvalue

/-- A value with a known constructor is passed through, or a text is written for it. -/
theorem pass_or_text_whole (shape : Shape) {message : String} {text : Expr → String} :
    Found (fun f => FixedWhole ctx 2 call f.edits)
      (if isMadeWith lib ctx value shape.passed then some (passThrough lib ctx call shape value)
      else (payload? lib ctx value shape.worked).map fun payload =>
        lib.replaceCall ctx call message (text payload) false) := by
  have hlength : 2 ≤ call.args.length := Call.lt_of_arg? hvalue
  refine found_ite (fun _ => ?_) fun _ => found_map fun _ _ => ?_
  · exact found_some.mpr (keepArg_whole lib ctx hlength
      (Call.mem_take_of_arg? hvalue Nat.one_lt_two) value.mem_nodes_self)
  · exact replaceCall_whole lib ctx hlength _ false

end

/-- A function and a value are taken. -/
theorem mapLike_takes (shape : Shape) : (mapLike shape).Takes 2 where
  surplus lib ctx call hn := by simp [mapLike, passThrough, knownMessage]
  whole lib ctx call := by
    unfold mapLike
    dsimp only
    split
    · exact found_none
    · refine found_ite (fun _ => ?_) fun _ => ?_
      · exact found_some.mpr (keepArgOrIdentity_whole lib ctx)
      · split
        · exact found_none
        · exact pass_or_text_whole lib ctx ‹_› shape

theorem andThenLike_takes (shape : Shape) : (andThenLike shape).Takes 2 where
  surplus lib ctx call hn := by simp [andThenLike, passThrough, knownMessage]
  whole lib ctx call := by
    unfold andThenLike
    dsimp only
    split
    · exact found_none
    · refine found_ite (fun _ => ?_) fun _ => ?_
      · exact found_some.mpr (keepArgOrIdentity_whole lib ctx)
      · split
        · exact found_none
        · exact pass_or_text_whole lib ctx ‹_› shape

/-- A default and a value are taken, although the value decides. -/
theorem withDefaultLike_takes (shape : Shape) : (withDefaultLike shape).Takes 2 where
  surplus lib ctx call hn := by simp [withDefaultLike]
  whole lib ctx call := by
    unfold withDefaultLike
    dsimp only
    split
    · rename_i fallback value hfallback hvalue
      have hlength : 2 ≤ call.args.length := Call.lt_of_arg? hvalue
      split
      · rename_i payload hpayload
        exact found_some.mpr (keepArg_whole lib ctx hlength
          (Call.mem_take_of_arg? hvalue Nat.one_lt_two) (Context.mem_nodes_of_argOfCall? hpayload))
      · refine found_ite (fun _ => ?_) fun _ => found_none
        exact found_some.mpr (keepArg_whole lib ctx hlength
          (Call.mem_take_of_arg? hfallback Nat.two_pos) fallback.mem_nodes_self)
    · exact found_none

theorem toMaybe_takes : toMaybe.Takes 1 where
  surplus lib ctx call hn := by simp [toMaybe]
  whole lib ctx call := by
    unfold toMaybe
    split
    · exact found_none
    · rename_i hvalue
      have hlength := Call.lt_of_arg? hvalue
      split
      · exact found_some.mpr (replaceCall_whole lib ctx hlength _ false)
      · refine found_ite (fun _ => ?_) fun _ => found_none
        exact found_some.mpr (replaceCall_whole lib ctx hlength _ true)

/-- Each function of `Maybe` is treated by the number of arguments that it takes. -/
theorem maybeFamily_takes : ∀ c ∈ maybeFamily.checks,
    ∃ n, Core.arity? ⟨Core.maybe, c.1⟩ = some n ∧ c.2.Takes n := by
  simp only [maybeFamily, List.forall_mem_cons]
  exact ⟨⟨2, rfl, mapLike_takes justShape⟩, ⟨2, rfl, andThenLike_takes justShape⟩,
    ⟨2, rfl, withDefaultLike_takes justShape⟩, by simp⟩

/-- Each function of `Result` is treated by the number of arguments that it takes. -/
theorem resultFamily_takes : ∀ c ∈ resultFamily.checks,
    ∃ n, Core.arity? ⟨Core.result, c.1⟩ = some n ∧ c.2.Takes n := by
  simp only [resultFamily, List.forall_mem_cons]
  exact ⟨⟨2, rfl, mapLike_takes okShape⟩, ⟨2, rfl, mapLike_takes errShape⟩,
    ⟨2, rfl, andThenLike_takes okShape⟩, ⟨2, rfl, withDefaultLike_takes okShape⟩,
    ⟨1, rfl, toMaybe_takes⟩, by simp⟩

end Terse.Rule.Wrapped
