import Terse.Proofs.Rule.Family
import Terse.Proofs.View.Erasure
import Terse.Rule.Catalog

/-!
# What checks say about calls

What is said about a call depends on its function and on its arguments, not on how the call is
written: neither on places, nor on parentheses, nor on pipes. The checks of two functions ask in
addition whether the first argument is written behind the name.
-/

namespace Terse

/-- What a finding says, apart from where it is and how it is fixed. -/
def Finding.verdict (f : Finding) : RuleCode × String := (f.rule, f.message)

/-- The second call has the arguments of the first one without places and parentheses. -/
structure Call.ErasesTo (c b : Call) : Prop where
  function : b.function = c.function
  args : b.args = c.args.map Expr.erase

namespace Call.ErasesTo

variable {c b : Call} (h : c.ErasesTo b)
include h

/-- The argument with an index is the one of the other call, without places and parentheses. -/
theorem arg? (index : Nat) : b.arg? index = (c.arg? index).map Expr.erase := by
  rw [Call.arg?, h.args, List.getElem?_map]
  rfl

/-- Parentheses around an argument do not hide which integer it is. -/
theorem int? (index : Nat) : (b.arg? index).bind Expr.int? = (c.arg? index).bind Expr.int? := by
  rw [h.arg?]
  cases c.arg? index <;> simp

/-- Parentheses around an argument do not hide which text it is. -/
theorem string? (index : Nat) :
    (b.arg? index).bind Expr.string? = (c.arg? index).bind Expr.string? := by
  rw [h.arg?]
  cases c.arg? index <;> simp

/-- A list that is written out as an argument still is one, of the erased elements. -/
theorem list? (index : Nat) :
    (b.arg? index).bind Expr.list? =
      ((c.arg? index).bind Expr.list?).map (List.map Expr.erase) := by
  rw [h.arg?]
  cases c.arg? index <;> simp

theorem isOf (path : ModuleName) (name : String) : b.isOf path name = c.isOf path name := by
  rw [Call.isOf, Call.isOf, h.function]

/-- Messages call both functions the same. -/
theorem displayCall (lib : Library) : lib.displayCall b = lib.displayCall c := by
  rw [Library.displayCall, Library.displayCall, h.function]

end Call.ErasesTo

/-- What the check says about a call depends only on what the call erases to. -/
def CallCheck.ReadsArgs (check : CallCheck) : Prop :=
  ∀ lib ctx c b, c.ErasesTo b →
    (check lib ctx b).map Finding.verdict = (check lib ctx c).map Finding.verdict

/-- What the check says about a call also depends on where the first argument is. -/
def CallCheck.ReadsAdjacency (check : CallCheck) : Prop :=
  ∀ lib ctx c b, c.ErasesTo b → b.argIsAdjacent 0 = c.argIsAdjacent 0 →
    (check lib ctx b).map Finding.verdict = (check lib ctx c).map Finding.verdict

/-! ## What the fixes of families say -/

@[simp] theorem verdict_fixing (rule : RuleCode) (message : String) (details : List String)
    (range : Range) (edits : List Edit) :
    (Finding.fixing rule message details range edits).verdict = (rule, message) := rfl

namespace Library

@[simp] theorem isReference_erase (lib : Library) (ctx : Context) (e : Expr) (name : String) :
    lib.isReference ctx e.erase name = lib.isReference ctx e name :=
  ctx.isReference_erase e _ _

variable (lib : Library) (ctx : Context) (call : Call) (message : String)

@[simp] theorem verdict_finding (edits : List Edit) :
    (lib.finding call message edits).verdict = (lib.code, message) := rfl

/-- A call that is replaced is reported under the code of the family; the text that is written does
not matter. -/
@[simp] theorem verdict_replaceCall (text : String) (atomic : Bool) :
    (lib.replaceCall ctx call message text atomic).verdict = (lib.code, message) := rfl

/-- Nor does it matter which argument is kept. -/
@[simp] theorem verdict_keepArg (kept : Expr) :
    (lib.keepArg ctx call message kept).verdict = (lib.code, message) := rfl

/-- A call that still lacks the argument is reported with the same message as a whole one. -/
@[simp] theorem verdict_keepArgOrIdentity (index : Nat) :
    (lib.keepArgOrIdentity ctx call message index).verdict = (lib.code, message) := by
  unfold keepArgOrIdentity
  split <;> rfl

/-- The message is the same whether the value is written or a function that always gives it. -/
@[simp] theorem verdict_valueOrAlways (index : Nat) (value : String) (atomic : Bool) :
    (lib.valueOrAlways ctx call message index value atomic).verdict = (lib.code, message) := by
  unfold valueOrAlways
  split <;> rfl

end Library

/-- What is said is decided by the same condition as what is found. -/
@[simp] theorem verdict_ite {p : Prop} [Decidable p] (a b : Option Finding) :
    (if p then a else b).map Finding.verdict =
      if p then a.map Finding.verdict else b.map Finding.verdict :=
  apply_ite _ _ _ _

/-! ## Single functions -/

namespace Rule

variable (ctx : Context) {c b : Call}

/-- A negation is reported when its argument is a boolean or a negation, which parentheses do not
change. -/
theorem checkNotCall_verdict (c b : Call) (argument : Expr) :
    (checkNotCall ctx b argument.erase).map Finding.verdict =
      (checkNotCall ctx c argument).map Finding.verdict := by
  unfold checkNotCall
  rw [ctx.bool?_erase, ctx.argOfCall?_erase]
  cases ctx.bool? argument with
  | some value => rfl
  | none => cases ctx.argOfCall? argument Core.basics "not" <;> rfl

variable (h : c.ErasesTo b) (e e' : Expr)
include h

/-- A call of `identity` is reported for having an argument, whatever it is. -/
theorem checkIdentity_verdict : (checkIdentity ctx b e').map Finding.verdict =
    (checkIdentity ctx c e).map Finding.verdict := by
  unfold checkIdentity
  rw [h.args]
  cases c.args <;> rfl

/-- Only the number of arguments decides what is said about a call of `always`. -/
theorem checkAlways_verdict : (checkAlways ctx b e').map Finding.verdict =
    (checkAlways ctx c e).map Finding.verdict := by
  unfold checkAlways
  rw [h.args]
  rcases c.args with _ | ⟨first, _ | ⟨second, more⟩⟩ <;> rfl

end Rule

/-! ## Lists -/

namespace Rule.Lists

variable {c b : Call} (lib : Library) (ctx : Context)

section

variable (h : c.ErasesTo b)
include h

/-- The message about an empty list names the function and the result, and nothing of the
argument. -/
theorem emptyListMessage_erase (result : String) :
    emptyListMessage lib b result = emptyListMessage lib c result := by
  rw [emptyListMessage, emptyListMessage, h.displayCall]

theorem replaceOnEmpty_verdict (result : String) :
    (replaceOnEmpty lib ctx b result).verdict = (replaceOnEmpty lib ctx c result).verdict := by
  simp [replaceOnEmpty, emptyListMessage_erase lib h]

/-- Whether a list argument is empty is seen through parentheses. -/
theorem emptyStaysEmpty_verdict (index : Nat) :
    (emptyStaysEmpty lib ctx b index).map Finding.verdict =
      (emptyStaysEmpty lib ctx c index).map Finding.verdict := by
  unfold emptyStaysEmpty
  rw [h.arg?]
  cases c.arg? index with
  | none => rfl
  | some l => simp [replaceOnEmpty_verdict lib ctx h]

/-- A number that is not positive stays one. -/
theorem isNotPositive_erase (index : Nat) : isNotPositive b index = isNotPositive c index := by
  rw [isNotPositive, isNotPositive, h.int?]

end

/-- A function that makes a list of its parameter is still recognized, by name or as a lambda. -/
theorem isSingletonFunction_erase (e : Expr) :
    isSingletonFunction ctx e.erase = isSingletonFunction ctx e := by
  unfold isSingletonFunction
  rw [ctx.isReference_erase, e.stripParens_erase, ← e.erase_stripParens]
  cases he : e.stripParens with
  | paren r inner => exact absurd he (e.stripParens_ne_paren r inner)
  | lambda _ params body =>
    rcases params with _ | ⟨param, _ | ⟨next, more⟩⟩
    · rfl
    · simp only [Expr.erase, Pattern.eraseAll, Expr.list?_erase]
      rcases body.list? with _ | _ | ⟨element, _ | ⟨next, more⟩⟩ <;>
        simp [Context.returnsParam_erase]
    · rfl
  | _ => simp only [Expr.erase]

/-- So is a function that always returns `Nothing`. -/
theorem alwaysNothing_erase (e : Expr) : alwaysNothing ctx e.erase = alwaysNothing ctx e := by
  unfold alwaysNothing
  rw [ctx.constant?_erase]
  cases ctx.constant? e with
  | none => rfl
  | some value => exact ctx.isReference_erase value _ _

/-- A call of `List.map` is looked at for the identity as its function, then for an empty list. -/
theorem map_readsArgs : map.ReadsArgs := by
  intro lib ctx c b h
  unfold map
  rw [h.arg?]
  cases c.arg? 0 with
  | none => rfl
  | some function => simp [emptyStaysEmpty_verdict lib ctx h]

theorem indexedMap_readsArgs : indexedMap.ReadsArgs := by
  intro lib ctx c b h
  exact emptyStaysEmpty_verdict lib ctx h 1

/-- A call of `List.filter` is looked at for a test with a known result, then for an empty list. -/
theorem filter_readsArgs : filter.ReadsArgs := by
  intro lib ctx c b h
  unfold filter
  rw [h.arg?]
  cases c.arg? 0 with
  | none => rfl
  | some predicate => simp [emptyStaysEmpty_verdict lib ctx h]

/-- A call of `List.filterMap` is looked at for `Just`, then for a function that always returns
`Nothing`, then for an empty list. -/
theorem filterMap_readsArgs : filterMap.ReadsArgs := by
  intro lib ctx c b h
  unfold filterMap
  rw [h.arg?]
  cases c.arg? 0 with
  | none => rfl
  | some function => simp [alwaysNothing_erase, emptyStaysEmpty_verdict lib ctx h]

/-! ### Concatenation -/

/-- Erasing parentheses leaves the runs of neighbouring lists as they are. -/
theorem listRuns_erase (run es : List Expr) :
    listRuns (run.map Expr.erase) (es.map Expr.erase) =
      (listRuns run es).map (List.map Expr.erase) := by
  induction es generalizing run with
  | nil => by_cases hlength : 2 ≤ run.length <;> simp [listRuns, hlength]
  | cons e es ih =>
    have hnil := ih []
    have hcons := ih (e :: run)
    simp only [List.map_nil, List.map_cons] at hnil hcons
    by_cases hlist : e.list?.isSome = true
    · simp [listRuns, hlist, hcons]
    · by_cases hlength : 2 ≤ run.length <;> simp [listRuns, hlist, hlength, hnil]

/-- A run has two lists or more: a list without a neighbour is none. -/
theorem two_le_of_mem_listRuns {run es : List Expr} {lists : List Expr}
    (h : lists ∈ listRuns run es) : 2 ≤ lists.length := by
  have hended : ∀ {run : List Expr},
      lists ∈ (if 2 ≤ run.length then [run.reverse] else []) → 2 ≤ lists.length := by
    intro run hrun
    split at hrun
    · rcases List.mem_singleton.mp hrun with rfl
      rw [List.length_reverse]
      assumption
    · cases hrun
  induction es generalizing run with
  | nil => exact hended h
  | cons e es ih =>
    unfold listRuns at h
    split at h
    · exact ih h
    · rcases List.mem_append.mp h with h | h
      · exact hended h
      · exact ih h

/-- Merging two lists or more is a change. -/
theorem mergeLists_ne_nil {lists : List Expr} (h : 2 ≤ lists.length) :
    ctx.mergeLists lists ≠ [] := by
  rcases exists_cons_cons h with ⟨first, second, rest, rfl⟩
  obtain ⟨last, hlast⟩ : ∃ last, (first :: second :: rest).getLast? = some last :=
    ⟨_, List.getLast?_cons⟩
  unfold Context.mergeLists
  rw [List.head?_cons, hlast]
  dsimp only
  split
  · rename_i hplain
    simp only [List.all_cons, Bool.and_eq_true] at hplain
    rcases hplain with ⟨hfirst, hsecond, -⟩
    unfold Context.isPlainList at hfirst hsecond
    split at hfirst
    · split at hsecond
      · simp [Context.joinLists, Expr.list?, Expr.stripParens, List.getLast?_cons]
      · cases hsecond
    · cases hfirst
  · simp

/-- Whether there are lists to merge does not depend on how they are written. -/
theorem isEmpty_mergeRuns (elements : List Expr) :
    ((listRuns [] elements).flatMap ctx.mergeLists).isEmpty = (listRuns [] elements).isEmpty := by
  rw [Bool.eq_iff_iff, List.isEmpty_iff, List.isEmpty_iff, List.flatMap_eq_nil_iff]
  constructor
  · intro hall
    apply List.eq_nil_iff_forall_not_mem.mpr
    intro lists hlists
    exact mergeLists_ne_nil ctx (two_le_of_mem_listRuns hlists) (hall lists hlists)
  · intro hnil lists hlists
    rw [hnil] at hlists
    cases hlists

/-- What is said about the concatenation of several elements depends on which of them are lists. -/
theorem concatMany_verdict (first last first' last' : Expr) (elements : List Expr) :
    (concatMany lib ctx b first' last' (elements.map Expr.erase)).map Finding.verdict =
      (concatMany lib ctx c first last elements).map Finding.verdict := by
  have hruns := listRuns_erase [] elements
  rw [List.map_nil] at hruns
  have hall : (elements.map Expr.erase).all (·.list?.isSome) = elements.all (·.list?.isSome) := by
    simp [Function.comp_def]
  unfold concatMany
  dsimp only
  rw [hall, isEmpty_mergeRuns, isEmpty_mergeRuns, hruns, List.isEmpty_map]
  simp

theorem concat_readsArgs : concat.ReadsArgs := by
  intro lib ctx c b h
  unfold concat
  rw [h.list?]
  rcases (c.arg? 0).bind Expr.list? with _ | _ | ⟨only, _ | ⟨second, rest⟩⟩
  · rfl
  · simp [replaceOnEmpty_verdict lib ctx h]
  · simp
  · exact concatMany_verdict lib ctx _ _ _ _ (only :: second :: rest)

/-- A call of `List.concatMap` with the identity becomes another function only if the identity is
written behind the name. -/
theorem concatMap_readsAdjacency : concatMap.ReadsAdjacency := by
  intro lib ctx c b h hadjacent
  unfold concatMap
  rw [h.arg?, hadjacent]
  cases c.arg? 0 with
  | none => rfl
  | some function => simp [isSingletonFunction_erase, emptyStaysEmpty_verdict lib ctx h]

/-- A call of `List.append` is looked at for an empty list on either side, then for two lists that
are written out. -/
theorem append_readsArgs : append.ReadsArgs := by
  intro lib ctx c b h
  unfold append
  rw [h.arg?, h.arg?]
  cases c.arg? 0 with
  | none => rfl
  | some first =>
    cases c.arg? 1 with
    | none => rfl
    | some second =>
      cases hfirst : first.list? <;> cases hsecond : second.list? <;> simp [hfirst, hsecond]

/-! ### Questions about a list -/

theorem isEmpty_readsArgs : isEmpty.ReadsArgs := by
  intro lib ctx c b h
  unfold isEmpty
  rw [h.list?]
  cases (c.arg? 0).bind Expr.list? with
  | none => rfl
  | some elements => simp

/-- Calls of `List.all` and `List.any` are looked at for a test with a known result, then for an
empty list. -/
theorem quantifier_readsArgs (onEmpty : Bool) : (quantifier onEmpty).ReadsArgs := by
  intro lib ctx c b h
  unfold quantifier
  rw [h.displayCall, h.arg?, h.arg?]
  cases c.arg? 0 with
  | none => rfl
  | some predicate => cases c.arg? 1 <;> simp

/-- Membership is decided where the value equals an element that is written out, up to
parentheses. -/
theorem member_readsArgs : member.ReadsArgs := by
  intro lib ctx c b h
  unfold member
  rw [h.arg?, h.list?]
  cases c.arg? 0 with
  | none => rfl
  | some needle =>
    rcases (c.arg? 1).bind Expr.list? with _ | _ | ⟨element, elements⟩
    · rfl
    · simp [replaceOnEmpty_verdict lib ctx h]
    · simp [Function.comp_def]

theorem length_readsArgs : length.ReadsArgs := by
  intro lib ctx c b h
  unfold length
  rw [h.list?]
  cases (c.arg? 0).bind Expr.list? with
  | none => rfl
  | some elements => simp

/-! ### Numbers of elements -/

/-- A range is reported when both ends are known and it ends before it starts. -/
theorem range_readsArgs : range.ReadsArgs := by
  intro lib ctx c b h
  unfold range
  rw [h.int?, h.int?]
  split
  · simp
  · rfl

theorem replicate_readsArgs : replicate.ReadsArgs := by
  intro lib ctx c b h
  simp [replicate, isNotPositive_erase h]

theorem take_readsArgs : take.ReadsArgs := by
  intro lib ctx c b h
  simp [take, isNotPositive_erase h, emptyStaysEmpty_verdict lib ctx h]

theorem drop_readsArgs : drop.ReadsArgs := by
  intro lib ctx c b h
  simp [drop, isNotPositive_erase h, emptyStaysEmpty_verdict lib ctx h]

/-! ### Other results -/

/-- A call of `List.reverse` is looked at for a list of at most one element, or for another
reversal. -/
theorem reverse_readsArgs : reverse.ReadsArgs := by
  intro lib ctx c b h
  unfold reverse
  rw [h.arg?]
  cases c.arg? 0 with
  | none => rfl
  | some argument =>
    rw [Option.map_some]
    dsimp only
    rw [argument.list?_erase]
    rcases argument.list? with _ | _ | ⟨only, _ | ⟨second, rest⟩⟩
    · simp [Function.comp_def]
    · simp [replaceOnEmpty_verdict lib ctx h]
    · simp
    · rfl

theorem fold_readsArgs : fold.ReadsArgs := by
  intro lib ctx c b h
  unfold fold
  rw [h.displayCall, h.arg?, h.arg?]
  cases c.arg? 1 <;> cases c.arg? 2 <;> simp

/-- A call of `List.partition` is looked at for an empty list, then for a test with a known
result. -/
theorem partition_readsArgs : partition.ReadsArgs := by
  intro lib ctx c b h
  unfold partition
  rw [h.arg?, h.arg?]
  cases c.arg? 0 with
  | none => rfl
  | some predicate =>
    cases c.arg? 1 with
    | none => rfl
    | some l => simp [replaceOnEmpty_verdict lib ctx h]

/-- The first element is known when the list is written out; the message does not name it. -/
theorem head_readsArgs : head.ReadsArgs := by
  intro lib ctx c b h
  unfold head
  rw [h.list?]
  rcases (c.arg? 0).bind Expr.list? with _ | _ | ⟨first, rest⟩
  · rfl
  · simp [nothingOnEmpty, replaceOnEmpty_verdict lib ctx h]
  · simp

theorem tail_readsArgs : tail.ReadsArgs := by
  intro lib ctx c b h
  unfold tail
  rw [h.list?]
  rcases (c.arg? 0).bind Expr.list? with _ | _ | ⟨first, rest⟩
  · rfl
  · simp [nothingOnEmpty, replaceOnEmpty_verdict lib ctx h]
  · simp

/-- The least and the greatest element are known of lists of at most one element. -/
theorem extremum_readsArgs : extremum.ReadsArgs := by
  intro lib ctx c b h
  unfold extremum
  rw [h.displayCall, h.list?]
  rcases (c.arg? 0).bind Expr.list? with _ | _ | ⟨only, _ | ⟨second, rest⟩⟩
  · rfl
  · simp [nothingOnEmpty, replaceOnEmpty_verdict lib ctx h]
  · simp
  · rfl

/-- So are sums and products, whatever their neutral number is. -/
theorem aggregate_readsArgs (neutral : String) : (aggregate neutral).ReadsArgs := by
  intro lib ctx c b h
  unfold aggregate
  rw [h.displayCall, h.list?]
  rcases (c.arg? 0).bind Expr.list? with _ | _ | ⟨only, _ | ⟨second, rest⟩⟩
  · rfl
  · simp [replaceOnEmpty_verdict lib ctx h]
  · simp
  · rfl

theorem singleton_readsArgs : singleton.ReadsArgs := by
  intro lib ctx c b h
  unfold singleton
  rw [h.arg?]
  cases c.arg? 0 with
  | none => rfl
  | some value => simp

/-- All checks but one read only the function and the arguments. -/
theorem family_readsArgs :
    ∀ c ∈ family.checks, c = ("concatMap", concatMap) ∨ CallCheck.ReadsArgs c.2 := by
  simp only [family, List.forall_mem_cons]
  exact ⟨.inr map_readsArgs, .inr filter_readsArgs, .inr filterMap_readsArgs,
    .inr concat_readsArgs, .inl trivial, .inr indexedMap_readsArgs, .inr isEmpty_readsArgs,
    .inr (quantifier_readsArgs true), .inr (quantifier_readsArgs false), .inr range_readsArgs,
    .inr length_readsArgs, .inr replicate_readsArgs, .inr reverse_readsArgs, .inr fold_readsArgs,
    .inr fold_readsArgs, .inr partition_readsArgs, .inr head_readsArgs, .inr tail_readsArgs,
    .inr extremum_readsArgs, .inr extremum_readsArgs, .inr member_readsArgs,
    .inr (aggregate_readsArgs "0"), .inr (aggregate_readsArgs "1"), .inr take_readsArgs,
    .inr drop_readsArgs, .inr append_readsArgs, .inr singleton_readsArgs, by simp⟩

end Rule.Lists

/-! ## Texts -/

namespace Rule.Strings

variable {c b : Call} (lib : Library) (ctx : Context)

section

variable (h : c.ErasesTo b)
include h

/-- Whether a text argument is empty is seen through parentheses. -/
theorem onEmptyString_verdict (index : Nat) (result : String) :
    (onEmptyString lib ctx b index result).map Finding.verdict =
      (onEmptyString lib ctx c index result).map Finding.verdict := by
  unfold onEmptyString
  rw [h.displayCall, h.arg?]
  cases c.arg? index <;> simp

theorem hasEmptyList_erase (index : Nat) : hasEmptyList b index = hasEmptyList c index := by
  rw [hasEmptyList, hasEmptyList, h.arg?]
  cases c.arg? index <;> simp

end

/-- A call of `String.join` with an empty separator becomes another function only if the separator
is written behind the name. -/
theorem join_readsAdjacency : join.ReadsAdjacency := by
  intro lib ctx c b h hadjacent
  unfold join
  rw [h.arg?, hadjacent, hasEmptyList_erase h]
  cases c.arg? 0 <;> simp

theorem isEmpty_readsArgs : isEmpty.ReadsArgs := by
  intro lib ctx c b h
  unfold isEmpty
  rw [h.string?]
  cases (c.arg? 0).bind Expr.string? <;> simp

theorem concat_readsArgs : concat.ReadsArgs := by
  intro lib ctx c b h
  unfold concat
  rw [h.arg?]
  cases c.arg? 0 <;> simp

theorem length_readsArgs : length.ReadsArgs := by
  intro lib ctx c b h
  unfold length
  rw [h.string?]
  cases (c.arg? 0).bind Expr.string? <;> simp

/-- A call of `String.repeat` is looked at for the number of times, then for an empty text. -/
theorem replicate_readsArgs : replicate.ReadsArgs := by
  intro lib ctx c b h
  unfold replicate
  rw [h.int?]
  simp [onEmptyString_verdict lib ctx h]

theorem split_readsArgs : split.ReadsArgs := by
  intro lib ctx c b h
  exact onEmptyString_verdict lib ctx h 0 "[]"

/-- A call of `String.reverse` is looked at for an empty text, then for another reversal. -/
theorem reverse_readsArgs : reverse.ReadsArgs := by
  intro lib ctx c b h
  have hempty := onEmptyString_verdict lib ctx h 0 emptyText
  unfold reverse
  rw [h.arg?]
  cases hb : onEmptyString lib ctx b 0 emptyText <;>
    cases hc : onEmptyString lib ctx c 0 emptyText <;> rw [hb, hc] at hempty
  · cases c.arg? 0 <;> simp [Function.comp_def]
  · cases hempty
  · cases hempty
  · exact hempty

/-- A call of `String.fromList` is looked at for a list of at most one character. -/
theorem fromList_readsArgs : fromList.ReadsArgs := by
  intro lib ctx c b h
  unfold fromList
  rw [h.list?]
  rcases (c.arg? 0).bind Expr.list? with _ | _ | ⟨only, _ | ⟨second, rest⟩⟩ <;> simp

/-- Of two texts, the one beside the empty text is kept, in the same place without parentheses. -/
theorem besideEmpty?_erase (first second : Expr) :
    besideEmpty? first.erase second.erase = (besideEmpty? first second).map Expr.erase := by
  simp only [besideEmpty?, Expr.isEmptyString_erase]
  split
  · rfl
  · split <;> rfl

theorem append_readsArgs : append.ReadsArgs := by
  intro lib ctx c b h
  unfold append
  rw [h.arg?, h.arg?]
  cases c.arg? 0 <;> cases c.arg? 1 <;> simp [besideEmpty?_erase, Function.comp_def]

/-- All checks but one read only the function and the arguments. -/
theorem family_readsArgs : ∀ c ∈ family.checks, c = ("join", join) ∨ CallCheck.ReadsArgs c.2 := by
  simp only [family, List.forall_mem_cons]
  exact ⟨.inr isEmpty_readsArgs, .inr concat_readsArgs, .inl trivial, .inr length_readsArgs,
    .inr replicate_readsArgs, .inr split_readsArgs, .inr split_readsArgs, .inr reverse_readsArgs,
    .inr fromList_readsArgs, .inr append_readsArgs, by simp⟩

end Rule.Strings

/-! ## Wrapped values -/

namespace Rule.Wrapped

variable (lib : Library) (ctx : Context)

/-- What a constructor holds is the erased payload, however the constructor is applied. -/
@[simp] theorem payload?_erase (e : Expr) (constructor : String) :
    payload? lib ctx e.erase constructor = (payload? lib ctx e constructor).map Expr.erase :=
  ctx.argOfCall?_erase e _ _

/-- Which constructor a value is made with does not depend on parentheses. -/
@[simp] theorem isMadeWith_erase (e : Expr) (constructor : String) :
    isMadeWith lib ctx e.erase constructor = isMadeWith lib ctx e constructor := by
  simp [isMadeWith]

/-- Maps over wrapped values look at the function for the identity, and at the value for its
constructor. -/
theorem mapLike_readsArgs (shape : Shape) : (mapLike shape).ReadsArgs := by
  intro lib ctx c b h
  unfold mapLike
  rw [h.displayCall, h.arg?, h.arg?]
  cases c.arg? 0 with
  | none => rfl
  | some function =>
    cases c.arg? 1 <;>
      simp [passThrough, knownMessage, h.displayCall, Function.comp_def]

/-- Chaining looks at the function for the constructor that it would add, then at the value. -/
theorem andThenLike_readsArgs (shape : Shape) : (andThenLike shape).ReadsArgs := by
  intro lib ctx c b h
  unfold andThenLike
  rw [h.displayCall, h.arg?, h.arg?]
  cases c.arg? 0 with
  | none => rfl
  | some function =>
    cases c.arg? 1 <;>
      simp [passThrough, knownMessage, h.displayCall, Function.comp_def]

/-- A default is decided by the constructor of the value alone. -/
theorem withDefaultLike_readsArgs (shape : Shape) : (withDefaultLike shape).ReadsArgs := by
  intro lib ctx c b h
  unfold withDefaultLike
  rw [h.displayCall, h.arg?, h.arg?]
  cases c.arg? 0 with
  | none => rfl
  | some fallback =>
    cases c.arg? 1 with
    | none => rfl
    | some value => cases hpayload : payload? lib ctx value shape.worked <;> simp [hpayload]

/-- A call of `Result.toMaybe` is decided by the constructor of the value. -/
theorem toMaybe_readsArgs : toMaybe.ReadsArgs := by
  intro lib ctx c b h
  unfold toMaybe
  rw [h.arg?]
  cases c.arg? 0 with
  | none => rfl
  | some value => cases hpayload : payload? lib ctx value "Ok" <;> simp [hpayload]

theorem maybeFamily_readsArgs : ∀ c ∈ maybeFamily.checks, CallCheck.ReadsArgs c.2 := by
  simp only [maybeFamily, List.forall_mem_cons]
  exact ⟨mapLike_readsArgs _, andThenLike_readsArgs _, withDefaultLike_readsArgs _, by simp⟩

/-- No function of `Result` asks where its arguments are written, and so with `Maybe` before it. -/
theorem resultFamily_readsArgs : ∀ c ∈ resultFamily.checks, CallCheck.ReadsArgs c.2 := by
  simp only [resultFamily, List.forall_mem_cons]
  exact ⟨mapLike_readsArgs _, mapLike_readsArgs _, andThenLike_readsArgs _,
    withDefaultLike_readsArgs _, toMaybe_readsArgs, by simp⟩

end Rule.Wrapped

/-! ## Sets and dictionaries -/

namespace Rule.Collection

/-- The empty collection is recognized by what its name means. -/
@[simp] theorem isEmptyCollection_erase (lib : Library) (ctx : Context) (e : Expr) :
    isEmptyCollection lib ctx e.erase = isEmptyCollection lib ctx e :=
  lib.isReference_erase ctx e _

/-- A call on the empty collection is reported with a message that only names functions. -/
theorem onEmpty_readsArgs (index : Nat) (result : Library → Context → String)
    (shown : Library → String) : (onEmpty index result shown).ReadsArgs := by
  intro lib ctx c b h
  unfold onEmpty
  rw [h.displayCall, h.arg?]
  cases c.arg? index <;> simp

theorem emptyStaysEmpty_readsArgs (index : Nat) : (emptyStaysEmpty index).ReadsArgs :=
  onEmpty_readsArgs index _ _

theorem onEmptyBool_readsArgs (index : Nat) (value : Bool) : (onEmptyBool index value).ReadsArgs :=
  onEmpty_readsArgs index _ _

theorem onEmptyText_readsArgs (index : Nat) (text : String) : (onEmptyText index text).ReadsArgs :=
  onEmpty_readsArgs index _ _

theorem partition_readsArgs : partition.ReadsArgs := onEmpty_readsArgs 1 _ _

/-- A collection that is made of an empty list is reported, whatever encloses the list. -/
theorem fromList_readsArgs : fromList.ReadsArgs := by
  intro lib ctx c b h
  unfold fromList
  rw [h.displayCall, h.arg?]
  cases c.arg? 0 <;> simp

/-- A set is also reported when it is made of a single element. -/
theorem setFromList_readsArgs : setFromList.ReadsArgs := by
  intro lib ctx c b h
  have hempty := fromList_readsArgs lib ctx c b h
  unfold setFromList
  rw [h.list?]
  rcases (c.arg? 0).bind Expr.list? with _ | _ | ⟨only, _ | ⟨second, rest⟩⟩
  · exact hempty
  · exact hempty
  · simp
  · exact hempty

theorem setMap_readsArgs : setMap.ReadsArgs := by
  intro lib ctx c b h
  unfold setMap
  rw [h.arg?]
  cases c.arg? 0 <;> simp [emptyStaysEmpty_readsArgs 1 lib ctx c b h]

/-- A call of `Set.filter` is looked at for a test with a known result, then for the empty set. -/
theorem setFilter_readsArgs : setFilter.ReadsArgs := by
  intro lib ctx c b h
  unfold setFilter
  rw [h.arg?]
  cases c.arg? 0 <;> simp [emptyStaysEmpty_readsArgs 1 lib ctx c b h]

theorem union_readsArgs : union.ReadsArgs := by
  intro lib ctx c b h
  unfold union
  rw [h.arg?, h.arg?]
  cases c.arg? 0 <;> cases c.arg? 1 <;> simp

/-- The first set is looked at before the second one, and the message is the same for both. -/
theorem intersect_readsArgs : intersect.ReadsArgs := by
  intro lib ctx c b h
  unfold intersect
  rw [h.arg?]
  cases c.arg? 0 <;>
    simp [emptyStaysEmpty_readsArgs 0 lib ctx c b h, emptyStaysEmpty_readsArgs 1 lib ctx c b h]

theorem diff_readsArgs : diff.ReadsArgs := by
  intro lib ctx c b h
  unfold diff
  rw [h.arg?, h.arg?]
  cases c.arg? 0 <;> cases c.arg? 1 <;> simp [emptyStaysEmpty_readsArgs 0 lib ctx c b h]

theorem setFamily_readsArgs : ∀ c ∈ setFamily.checks, CallCheck.ReadsArgs c.2 := by
  simp only [setFamily, List.forall_mem_cons]
  exact ⟨setMap_readsArgs, setFilter_readsArgs, onEmptyBool_readsArgs 0 true,
    onEmptyBool_readsArgs 1 false, setFromList_readsArgs, onEmptyText_readsArgs 0 "[]",
    onEmptyText_readsArgs 0 "0", emptyStaysEmpty_readsArgs 1, union_readsArgs,
    intersect_readsArgs, diff_readsArgs, partition_readsArgs, by simp⟩

theorem dictFamily_readsArgs : ∀ c ∈ dictFamily.checks, CallCheck.ReadsArgs c.2 := by
  simp only [dictFamily, List.forall_mem_cons]
  exact ⟨onEmptyBool_readsArgs 0 true, fromList_readsArgs, onEmptyText_readsArgs 0 "[]",
    onEmptyText_readsArgs 0 "[]", onEmptyText_readsArgs 0 "[]", onEmptyText_readsArgs 0 "0",
    onEmptyBool_readsArgs 1 false, emptyStaysEmpty_readsArgs 1, emptyStaysEmpty_readsArgs 1,
    union_readsArgs, emptyStaysEmpty_readsArgs 1, partition_readsArgs, by simp⟩

end Rule.Collection

/-! ## Effects -/

namespace Rule.Effect

/-- The effect that does nothing is recognized by what its name means. -/
@[simp] theorem isNone_erase (lib : Library) (ctx : Context) (e : Expr) :
    isNone lib ctx e.erase = isNone lib ctx e :=
  lib.isReference_erase ctx e _

/-- Effects that do nothing are reported with one message, whether some of them are dropped or
all. -/
theorem dropNone_verdict (lib : Library) (ctx : Context) (c b : Call) (elements : List Expr) :
    (dropNone lib ctx b (elements.map Expr.erase)).map Finding.verdict =
      (dropNone lib ctx c elements).map Finding.verdict := by
  unfold dropNone
  rw [List.find?_map]
  simp only [Function.comp_def, isNone_erase, List.all_map]
  cases elements.find? (isNone lib ctx) <;> simp

/-- A batch is looked at for its number of effects, then for effects that do nothing. -/
theorem batch_readsArgs : batch.ReadsArgs := by
  intro lib ctx c b h
  unfold batch
  rw [h.displayCall, h.list?]
  rcases (c.arg? 0).bind Expr.list? with _ | _ | ⟨only, _ | ⟨second, rest⟩⟩
  · rfl
  · simp
  · simp
  · exact dropNone_verdict lib ctx c b (only :: second :: rest)

theorem map_readsArgs : map.ReadsArgs := by
  intro lib ctx c b h
  unfold map
  rw [h.displayCall, h.arg?, h.arg?]
  cases c.arg? 0 with
  | none => rfl
  | some function => cases c.arg? 1 <;> simp

theorem cmdFamily_readsArgs : ∀ c ∈ cmdFamily.checks, CallCheck.ReadsArgs c.2 := by
  simp only [cmdFamily, List.forall_mem_cons]
  exact ⟨batch_readsArgs, map_readsArgs, by simp⟩

theorem subFamily_readsArgs : ∀ c ∈ subFamily.checks, CallCheck.ReadsArgs c.2 := by
  simp only [subFamily, List.forall_mem_cons]
  exact ⟨batch_readsArgs, map_readsArgs, by simp⟩

end Rule.Effect

end Terse
