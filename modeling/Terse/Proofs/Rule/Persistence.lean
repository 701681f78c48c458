import Terse.Proofs.Rule.Arguments
import Terse.Proofs.Rule.Verdict

/-!
# Calls with further arguments

Most functions of the families are recognised before they have all their arguments: `List.map
identity` is the identity, with a list behind it or without. A check asks for the arguments it needs
one after the other, so an argument that comes behind the others never takes a finding away. Only
the message of `String.join` may change, when the list that it joins turns out to be empty.
-/

namespace Terse

/-! ## Findings that stay -/

/-- What is found is found later, too, and `view` does not tell the two findings apart. -/
def StaysFound {α : Type} (view : Finding → α) (found later : Option Finding) : Prop :=
  Found (fun f => ∃ f', later = some f' ∧ view f' = view f) found

section

variable {α : Type} {view : Finding → α} {later : Option Finding}

/-- Where nothing is found, nothing has to stay. -/
theorem stays_none : StaysFound view none later :=
  found_none

theorem stays_some {f f' : Finding} (h : view f' = view f) :
    StaysFound view (some f) (some f') :=
  found_some.mpr ⟨f', rfl, h⟩

/-- It is enough that findings stay on both sides of a condition that does not change. -/
theorem stays_ite {p : Prop} [Decidable p] {a b a' b' : Option Finding}
    (ha : p → StaysFound view a a') (hb : ¬ p → StaysFound view b b') :
    StaysFound view (if p then a else b) (if p then a' else b') := by
  by_cases hp : p
  · rw [if_pos hp, if_pos hp]
    exact ha hp
  · rw [if_neg hp, if_neg hp]
    exact hb hp

/-- What is found for the same value stays, if its messages do not tell the difference. -/
theorem stays_map {β : Type} {o : Option β} {g g' : β → Finding}
    (h : ∀ x, view (g' x) = view (g x)) : StaysFound view (o.map g) (o.map g') := by
  cases o with
  | none => exact stays_none
  | some x => exact stays_some (h x)

end

/-! ## Calls with further arguments -/

/-- The second call has the function and the arguments of the first one and further arguments behind
them. Both are written in one piece. -/
structure Call.Continues (c c' : Call) : Prop where
  function : c'.function = c.function
  direct : c.form = .direct
  direct' : c'.form = .direct
  args : c.args <+: c'.args

namespace Call.Continues

variable {c c' : Call} {index : Nat} (h : c.Continues c')
include h

/-- The arguments that the call had keep their places. -/
theorem arg? {a : Expr} (ha : c.arg? index = some a) : c'.arg? index = some a := by
  obtain ⟨more, hmore⟩ := h.args
  have hlt := Call.lt_of_arg? ha
  rw [Call.arg?, ← hmore, List.getElem?_append_left hlt]
  exact ha

/-- So does what is read off them. -/
theorem bind_arg? {α : Type} {read : Expr → Option α} {x : α}
    (hx : (c.arg? index).bind read = some x) : (c'.arg? index).bind read = some x := by
  obtain ⟨a, ha, hread⟩ := Option.bind_eq_some_iff.mp hx
  rw [h.arg? ha]
  exact hread

theorem displayCall (lib : Library) : lib.displayCall c' = lib.displayCall c := by
  rw [Library.displayCall, Library.displayCall, h.function]

/-- In a call that is written in one piece every argument is behind the function. -/
theorem argIsAdjacent (ha : c.argIsAdjacent index = true) : c'.argIsAdjacent index = true := by
  rw [Call.argIsAdjacent, h.direct, decide_eq_true_eq] at ha
  rw [Call.argIsAdjacent, h.direct', decide_eq_true_eq]
  exact ha.trans_le h.args.length_le

end Call.Continues

/-- Without an argument there are none behind it. -/
theorem Call.arg?_succ_of_none {call : Call} {index : Nat} (h : call.arg? index = none) :
    call.arg? (index + 1) = none :=
  List.getElem?_eq_none ((Call.le_of_arg? h).trans index.le_succ)

/-- What the check finds in a call it finds with further arguments, too. -/
def CallCheck.Persists {α : Type} (view : Finding → α) (check : CallCheck) : Prop :=
  ∀ lib ctx c c', c.Continues c' → StaysFound view (check lib ctx c) (check lib ctx c')

/-! ## Lists -/

namespace Rule.Lists

section

variable {c c' : Call} (h : c.Continues c') (lib : Library) (ctx : Context)
include h

/-- The message about an empty list does not count arguments. -/
theorem replaceOnEmpty_continues (result : String) :
    (replaceOnEmpty lib ctx c' result).verdict = (replaceOnEmpty lib ctx c result).verdict := by
  simp [replaceOnEmpty, emptyListMessage, h.displayCall]

/-- An empty list stays one when more arguments come behind it. -/
theorem emptyStaysEmpty_stays (index : Nat) :
    StaysFound Finding.verdict (emptyStaysEmpty lib ctx c index)
      (emptyStaysEmpty lib ctx c' index) := by
  unfold emptyStaysEmpty
  cases harg : c.arg? index with
  | none => exact stays_none
  | some l =>
    rw [h.arg? harg]
    exact stays_ite (fun _ => stays_some (replaceOnEmpty_continues h lib ctx "[]"))
      fun _ => stays_none

/-- A number that was given stays the same. -/
theorem isNotPositive_continues {index : Nat} {a : Expr} (ha : c.arg? index = some a) :
    isNotPositive c' index = isNotPositive c index := by
  rw [isNotPositive, isNotPositive, ha, h.arg? ha]

end

/-- The function is looked at first, the list only if the function says nothing; so a list that
comes behind it cannot take the finding away. -/
theorem map_persists : map.Persists Finding.verdict := by
  intro lib ctx c c' h
  unfold map
  cases harg : c.arg? 0 with
  | none => exact stays_none
  | some function =>
    rw [h.arg? harg]
    refine stays_ite (fun _ => stays_some ?_) fun _ => emptyStaysEmpty_stays h lib ctx 1
    simp

theorem indexedMap_persists : indexedMap.Persists Finding.verdict := by
  intro lib ctx c c' h
  exact emptyStaysEmpty_stays h lib ctx 1

/-- The test decides before the list is looked at. -/
theorem filter_persists : filter.Persists Finding.verdict := by
  intro lib ctx c c' h
  unfold filter
  cases harg : c.arg? 0 with
  | none => exact stays_none
  | some predicate =>
    rw [h.arg? harg]
    refine stays_ite (fun _ => stays_some ?_) fun _ => ?_
    · simp
    refine stays_ite (fun _ => stays_some ?_) fun _ => emptyStaysEmpty_stays h lib ctx 1
    simp

/-- The function decides before the list is looked at. -/
theorem filterMap_persists : filterMap.Persists Finding.verdict := by
  intro lib ctx c c' h
  unfold filterMap
  cases harg : c.arg? 0 with
  | none => exact stays_none
  | some function =>
    rw [h.arg? harg]
    refine stays_ite (fun _ => stays_some ?_) fun _ => ?_
    · simp
    refine stays_ite (fun _ => stays_some ?_) fun _ => emptyStaysEmpty_stays h lib ctx 1
    simp

/-- The message depends on the elements alone. -/
theorem concatMany_stays (lib : Library) (ctx : Context) (c c' : Call) (first last : Expr)
    (elements : List Expr) :
    StaysFound Finding.verdict (concatMany lib ctx c first last elements)
      (concatMany lib ctx c' first last elements) := by
  unfold concatMany
  refine stays_ite (fun _ => stays_some rfl) fun _ => ?_
  exact stays_ite (fun _ => stays_none) fun _ => stays_some rfl

theorem concat_persists : concat.Persists Finding.verdict := by
  intro lib ctx c c' h
  unfold concat
  cases hlist : (c.arg? 0).bind Expr.list? with
  | none => exact stays_none
  | some elements =>
    rw [h.bind_arg? hlist]
    match elements with
    | [] => exact stays_some (replaceOnEmpty_continues h lib ctx "[]")
    | [only] => exact stays_some rfl
    | first :: second :: rest => exact concatMany_stays lib ctx c c' _ _ _

/-- An argument that is behind the function stays there. -/
theorem concatMap_persists : concatMap.Persists Finding.verdict := by
  intro lib ctx c c' h
  unfold concatMap
  cases harg : c.arg? 0 with
  | none => exact stays_none
  | some function =>
    have hlt := Call.lt_of_arg? harg
    have hadjacent : c.argIsAdjacent 0 = true := by
      rw [Call.argIsAdjacent, h.direct, decide_eq_true_eq]
      exact hlt
    rw [h.arg? harg, hadjacent, h.argIsAdjacent hadjacent]
    refine stays_ite (fun _ => stays_some rfl) fun _ => ?_
    refine stays_ite (fun _ => stays_some ?_) fun _ => emptyStaysEmpty_stays h lib ctx 1
    simp

/-- Both lists have to be there for anything to be found. -/
theorem append_persists : append.Persists Finding.verdict := by
  intro lib ctx c c' h
  unfold append
  cases hfirst : c.arg? 0 with
  | none => exact stays_none
  | some first =>
    cases hsecond : c.arg? 1 with
    | none => exact stays_none
    | some second =>
      rw [h.arg? hfirst, h.arg? hsecond]
      refine stays_ite (fun _ => stays_some rfl) fun _ => ?_
      refine stays_ite (fun _ => stays_some rfl) fun _ => ?_
      cases first.list? with
      | none => exact stays_none
      | some xs =>
        cases second.list? with
        | none => exact stays_none
        | some ys => exact stays_some rfl

theorem isEmpty_persists : isEmpty.Persists Finding.verdict := by
  intro lib ctx c c' h
  unfold isEmpty
  cases hlist : (c.arg? 0).bind Expr.list? with
  | none => exact stays_none
  | some elements =>
    rw [h.bind_arg? hlist]
    exact stays_some rfl

/-- A test with a known result is reported without a list, and with any list behind it. -/
theorem quantifier_persists (onEmpty : Bool) : (quantifier onEmpty).Persists Finding.verdict := by
  intro lib ctx c c' h
  unfold quantifier
  rw [h.displayCall]
  cases harg : c.arg? 0 with
  | none => exact stays_none
  | some predicate =>
    rw [h.arg? harg]
    refine stays_ite (fun _ => stays_some ?_) fun _ => ?_
    · simp
    cases hlist : c.arg? 1 with
    | none => exact stays_none
    | some l =>
      rw [h.arg? hlist]
      exact stays_ite (fun _ => stays_some rfl) fun _ => stays_none

/-- Both the value and the list have to be there for anything to be found. -/
theorem member_persists : member.Persists Finding.verdict := by
  intro lib ctx c c' h
  unfold member
  cases harg : c.arg? 0 with
  | none => exact stays_none
  | some needle =>
    cases hlist : (c.arg? 1).bind Expr.list? with
    | none => exact stays_none
    | some elements =>
      rw [h.arg? harg, h.bind_arg? hlist]
      cases elements with
      | nil => exact stays_some (replaceOnEmpty_continues h lib ctx _)
      | cons first rest => exact stays_ite (fun _ => stays_some rfl) fun _ => stays_none

theorem length_persists : length.Persists Finding.verdict := by
  intro lib ctx c c' h
  unfold length
  cases hlist : (c.arg? 0).bind Expr.list? with
  | none => exact stays_none
  | some elements =>
    rw [h.bind_arg? hlist]
    exact stays_some rfl

/-- Both ends have to be there for anything to be found. -/
theorem range_persists : range.Persists Finding.verdict := by
  intro lib ctx c c' h
  unfold range
  cases hlow : (c.arg? 0).bind Expr.int? with
  | none => exact stays_none
  | some low =>
    cases hhigh : (c.arg? 1).bind Expr.int? with
    | none => exact stays_none
    | some high =>
      rw [h.bind_arg? hlow, h.bind_arg? hhigh]
      exact stays_ite (fun _ => stays_none) fun _ => stays_some rfl

/-! A call without a first argument has no second one that could be the empty list. -/

/-- A number of times that is not positive is reported whatever is repeated. -/
theorem replicate_persists : replicate.Persists Finding.verdict := by
  intro lib ctx c c' h
  unfold replicate
  cases harg : c.arg? 0 with
  | none =>
    rw [isNotPositive, harg]
    exact stays_none
  | some n =>
    rw [isNotPositive_continues h harg]
    refine stays_ite (fun _ => stays_some ?_) fun _ => stays_none
    simp

/-- The number is looked at first, then the list. -/
theorem take_persists : take.Persists Finding.verdict := by
  intro lib ctx c c' h
  unfold take
  cases harg : c.arg? 0 with
  | none =>
    rw [isNotPositive, harg, emptyStaysEmpty, Call.arg?_succ_of_none harg]
    exact stays_none
  | some n =>
    rw [isNotPositive_continues h harg]
    refine stays_ite (fun _ => stays_some ?_) fun _ => emptyStaysEmpty_stays h lib ctx 1
    simp

/-- Here, too, the number comes first. -/
theorem drop_persists : drop.Persists Finding.verdict := by
  intro lib ctx c c' h
  unfold drop
  cases harg : c.arg? 0 with
  | none =>
    rw [isNotPositive, harg, emptyStaysEmpty, Call.arg?_succ_of_none harg]
    exact stays_none
  | some n =>
    rw [isNotPositive_continues h harg]
    refine stays_ite (fun _ => stays_some ?_) fun _ => emptyStaysEmpty_stays h lib ctx 1
    simp

/-- A function of one argument finds nothing without it, and further ones are not looked at. -/
theorem reverse_persists : reverse.Persists Finding.verdict := by
  intro lib ctx c c' h
  unfold reverse
  cases harg : c.arg? 0 with
  | none => exact stays_none
  | some argument =>
    rw [h.arg? harg]
    dsimp only
    match argument.list? with
    | some [] => exact stays_some (replaceOnEmpty_continues h lib ctx "[]")
    | some [_] => exact stays_some rfl
    | some (_ :: _ :: _) => exact stays_none
    | none => exact stays_map fun _ => rfl

/-- A fold is only looked at with its list, which comes last. -/
theorem fold_persists : fold.Persists Finding.verdict := by
  intro lib ctx c c' h
  unfold fold
  cases hinitial : c.arg? 1 with
  | none => exact stays_none
  | some initial =>
    cases hlist : c.arg? 2 with
    | none => exact stays_none
    | some l =>
      rw [h.arg? hinitial, h.arg? hlist, h.displayCall]
      exact stays_ite (fun _ => stays_some rfl) fun _ => stays_none

/-- A partition is only looked at with its list. -/
theorem partition_persists : partition.Persists Finding.verdict := by
  intro lib ctx c c' h
  unfold partition
  cases hpredicate : c.arg? 0 with
  | none => exact stays_none
  | some predicate =>
    cases hlist : c.arg? 1 with
    | none => exact stays_none
    | some l =>
      rw [h.arg? hpredicate, h.arg? hlist]
      refine stays_ite (fun _ => stays_some (replaceOnEmpty_continues h lib ctx _)) fun _ => ?_
      refine stays_ite (fun _ => stays_some rfl) fun _ => ?_
      exact stays_ite (fun _ => stays_some rfl) fun _ => stays_none

theorem head_persists : head.Persists Finding.verdict := by
  intro lib ctx c c' h
  unfold head
  cases hlist : (c.arg? 0).bind Expr.list? with
  | none => exact stays_none
  | some elements =>
    rw [h.bind_arg? hlist]
    cases elements with
    | nil => exact stays_some (replaceOnEmpty_continues h lib ctx _)
    | cons first rest => exact stays_some rfl

theorem tail_persists : tail.Persists Finding.verdict := by
  intro lib ctx c c' h
  unfold tail
  cases hlist : (c.arg? 0).bind Expr.list? with
  | none => exact stays_none
  | some elements =>
    rw [h.bind_arg? hlist]
    cases elements with
    | nil => exact stays_some (replaceOnEmpty_continues h lib ctx _)
    | cons first rest => exact stays_some rfl

theorem extremum_persists : extremum.Persists Finding.verdict := by
  intro lib ctx c c' h
  unfold extremum
  rw [h.displayCall]
  cases hlist : (c.arg? 0).bind Expr.list? with
  | none => exact stays_none
  | some elements =>
    rw [h.bind_arg? hlist]
    match elements with
    | [] => exact stays_some (replaceOnEmpty_continues h lib ctx _)
    | [only] => exact stays_some rfl
    | _ :: _ :: _ => exact stays_none

theorem aggregate_persists (neutral : String) : (aggregate neutral).Persists Finding.verdict := by
  intro lib ctx c c' h
  unfold aggregate
  rw [h.displayCall]
  cases hlist : (c.arg? 0).bind Expr.list? with
  | none => exact stays_none
  | some elements =>
    rw [h.bind_arg? hlist]
    match elements with
    | [] => exact stays_some (replaceOnEmpty_continues h lib ctx _)
    | [only] => exact stays_some rfl
    | _ :: _ :: _ => exact stays_none

theorem singleton_persists : singleton.Persists Finding.verdict := by
  intro lib ctx c c' h
  unfold singleton
  cases harg : c.arg? 0 with
  | none => exact stays_none
  | some value =>
    rw [h.arg? harg]
    exact stays_some rfl

/-- No function of `List` takes a finding back when more arguments come. -/
theorem family_persists : ∀ c ∈ family.checks, CallCheck.Persists Finding.verdict c.2 := by
  simp only [family, List.forall_mem_cons]
  exact ⟨map_persists, filter_persists, filterMap_persists, concat_persists, concatMap_persists,
    indexedMap_persists, isEmpty_persists, quantifier_persists true, quantifier_persists false,
    range_persists, length_persists, replicate_persists, reverse_persists, fold_persists,
    fold_persists, partition_persists, head_persists, tail_persists, extremum_persists,
    extremum_persists, member_persists, aggregate_persists "0", aggregate_persists "1",
    take_persists, drop_persists, append_persists, singleton_persists, by simp⟩

end Rule.Lists

/-! ## Texts -/

namespace Rule.Strings

/-- An empty text stays one when more arguments come behind it. -/
theorem onEmptyString_stays {c c' : Call} (h : c.Continues c') (lib : Library) (ctx : Context)
    (index : Nat) (result : String) :
    StaysFound Finding.verdict (onEmptyString lib ctx c index result)
      (onEmptyString lib ctx c' index result) := by
  unfold onEmptyString
  rw [h.displayCall]
  cases harg : c.arg? index with
  | none => exact stays_none
  | some s =>
    rw [h.arg? harg]
    exact stays_ite (fun _ => stays_some rfl) fun _ => stays_none

theorem isEmpty_persists : isEmpty.Persists Finding.verdict := by
  intro lib ctx c c' h
  unfold isEmpty
  cases hstring : (c.arg? 0).bind Expr.string? with
  | none => exact stays_none
  | some s =>
    rw [h.bind_arg? hstring]
    exact stays_some rfl

theorem concat_persists : concat.Persists Finding.verdict := by
  intro lib ctx c c' h
  unfold concat
  cases harg : c.arg? 0 with
  | none => exact stays_none
  | some l =>
    rw [h.arg? harg]
    exact stays_ite (fun _ => stays_some rfl) fun _ => stays_none

/-- The message is another one when the empty list follows. -/
theorem join_persists : join.Persists Finding.rule := by
  intro lib ctx c c' h
  unfold join
  cases harg : c.arg? 0 with
  | none => exact stays_none
  | some separator =>
    rw [h.arg? harg]
    dsimp only
    by_cases hempty : hasEmptyList c' 1 = true
    · rw [if_pos hempty]
      split
      · exact stays_some rfl
      · split
        · exact stays_some rfl
        · exact stays_none
    · have hnot : ¬ hasEmptyList c 1 = true := by
        intro htrue
        apply hempty
        unfold hasEmptyList at htrue ⊢
        cases hlist : c.arg? 1 with
        | none => simp [hlist] at htrue
        | some l =>
          rw [h.arg? hlist]
          simpa [hlist] using htrue
      rw [if_neg hempty, if_neg hnot]
      have hlt := Call.lt_of_arg? harg
      have hadjacent : c.argIsAdjacent 0 = true := by
        rw [Call.argIsAdjacent, h.direct, decide_eq_true_eq]
        exact hlt
      rw [hadjacent, h.argIsAdjacent hadjacent]
      exact stays_ite (fun _ => stays_some rfl) fun _ => stays_none

theorem length_persists : length.Persists Finding.verdict := by
  intro lib ctx c c' h
  unfold length
  cases hstring : (c.arg? 0).bind Expr.string? with
  | none => exact stays_none
  | some s =>
    rw [h.bind_arg? hstring]
    exact stays_some rfl

/-- A number of times that is not positive, or one, is reported whatever is repeated. -/
theorem replicate_persists : replicate.Persists Finding.verdict := by
  intro lib ctx c c' h
  unfold replicate
  cases harg : c.arg? 0 with
  | none =>
    rw [onEmptyString, Call.arg?_succ_of_none harg]
    exact stays_none
  | some n =>
    rw [h.arg? harg]
    refine stays_ite (fun _ => stays_some ?_) fun _ => ?_
    · simp
    refine stays_ite (fun _ => stays_some ?_) fun _ => onEmptyString_stays h lib ctx 1 _
    simp

theorem split_persists : split.Persists Finding.verdict := by
  intro lib ctx c c' h
  exact onEmptyString_stays h lib ctx 0 _

theorem reverse_persists : reverse.Persists Finding.verdict := by
  intro lib ctx c c' h
  unfold reverse onEmptyString
  rw [h.displayCall]
  cases harg : c.arg? 0 with
  | none => exact stays_none
  | some s =>
    rw [h.arg? harg]
    dsimp only
    by_cases hempty : s.isEmptyString = true
    · rw [if_pos hempty, if_pos hempty]
      exact stays_some rfl
    · rw [if_neg hempty, if_neg hempty]
      exact stays_map fun _ => rfl

theorem fromList_persists : fromList.Persists Finding.verdict := by
  intro lib ctx c c' h
  unfold fromList
  cases hlist : (c.arg? 0).bind Expr.list? with
  | none => exact stays_none
  | some elements =>
    rw [h.bind_arg? hlist]
    match elements with
    | [] => exact stays_some rfl
    | [only] => exact stays_some rfl
    | _ :: _ :: _ => exact stays_none

theorem append_persists : append.Persists Finding.verdict := by
  intro lib ctx c c' h
  unfold append
  cases hfirst : c.arg? 0 with
  | none => exact stays_none
  | some first =>
    cases hsecond : c.arg? 1 with
    | none => exact stays_none
    | some second =>
      rw [h.arg? hfirst, h.arg? hsecond]
      exact stays_map fun _ => rfl

/-- Of the functions of `String`, only `join` may change what it says. -/
theorem family_persists :
    ∀ c ∈ family.checks, c = ("join", join) ∨ CallCheck.Persists Finding.verdict c.2 := by
  simp only [family, List.forall_mem_cons]
  exact ⟨.inr isEmpty_persists, .inr concat_persists, .inl trivial, .inr length_persists,
    .inr replicate_persists, .inr split_persists, .inr split_persists, .inr reverse_persists,
    .inr fromList_persists, .inr append_persists, by simp⟩

end Rule.Strings

/-! ## Wrapped values -/

namespace Rule.Wrapped

/-- The identity is reported without a value, and with any value behind it. -/
theorem mapLike_persists (shape : Shape) : (mapLike shape).Persists Finding.verdict := by
  intro lib ctx c c' h
  unfold mapLike passThrough knownMessage
  rw [h.displayCall]
  cases harg : c.arg? 0 with
  | none => exact stays_none
  | some function =>
    rw [h.arg? harg]
    refine stays_ite (fun _ => stays_some ?_) fun _ => ?_
    · simp
    cases hvalue : c.arg? 1 with
    | none => exact stays_none
    | some value =>
      rw [h.arg? hvalue]
      exact stays_ite (fun _ => stays_some rfl) fun _ => stays_map fun _ => rfl

/-- The constructor as a function is reported without a value, and with any value behind it. -/
theorem andThenLike_persists (shape : Shape) : (andThenLike shape).Persists Finding.verdict := by
  intro lib ctx c c' h
  unfold andThenLike passThrough knownMessage
  rw [h.displayCall]
  cases harg : c.arg? 0 with
  | none => exact stays_none
  | some function =>
    rw [h.arg? harg]
    refine stays_ite (fun _ => stays_some ?_) fun _ => ?_
    · simp
    cases hvalue : c.arg? 1 with
    | none => exact stays_none
    | some value =>
      rw [h.arg? hvalue]
      exact stays_ite (fun _ => stays_some rfl) fun _ => stays_map fun _ => rfl

/-- A default is only looked at with the value behind it. -/
theorem withDefaultLike_persists (shape : Shape) :
    (withDefaultLike shape).Persists Finding.verdict := by
  intro lib ctx c c' h
  unfold withDefaultLike
  rw [h.displayCall]
  cases hfallback : c.arg? 0 with
  | none => exact stays_none
  | some fallback =>
    cases hvalue : c.arg? 1 with
    | none => exact stays_none
    | some value =>
      rw [h.arg? hfallback, h.arg? hvalue]
      dsimp only
      cases payload? lib ctx value shape.worked with
      | some payload => exact stays_some rfl
      | none => exact stays_ite (fun _ => stays_some rfl) fun _ => stays_none

theorem toMaybe_persists : toMaybe.Persists Finding.verdict := by
  intro lib ctx c c' h
  unfold toMaybe
  cases hvalue : c.arg? 0 with
  | none => exact stays_none
  | some value =>
    rw [h.arg? hvalue]
    dsimp only
    cases payload? lib ctx value "Ok" with
    | some payload => exact stays_some rfl
    | none => exact stays_ite (fun _ => stays_some rfl) fun _ => stays_none

/-- No function of `Maybe` takes a finding back when more arguments come. -/
theorem maybeFamily_persists :
    ∀ c ∈ maybeFamily.checks, CallCheck.Persists Finding.verdict c.2 := by
  simp only [maybeFamily, List.forall_mem_cons]
  exact ⟨mapLike_persists _, andThenLike_persists _, withDefaultLike_persists _, by simp⟩

/-- No function of `Result` takes a finding back when more arguments come. -/
theorem resultFamily_persists :
    ∀ c ∈ resultFamily.checks, CallCheck.Persists Finding.verdict c.2 := by
  simp only [resultFamily, List.forall_mem_cons]
  exact ⟨mapLike_persists _, mapLike_persists _, andThenLike_persists _,
    withDefaultLike_persists _, toMaybe_persists, by simp⟩

end Rule.Wrapped

/-! ## Sets and dictionaries -/

namespace Rule.Collection

/-- The empty collection stays where it was given. -/
theorem onEmpty_persists (index : Nat) (result : Library → Context → String)
    (shown : Library → String) : (onEmpty index result shown).Persists Finding.verdict := by
  intro lib ctx c c' h
  unfold onEmpty
  rw [h.displayCall]
  cases harg : c.arg? index with
  | none => exact stays_none
  | some l =>
    rw [h.arg? harg]
    exact stays_ite (fun _ => stays_some rfl) fun _ => stays_none

theorem emptyStaysEmpty_persists (index : Nat) :
    (emptyStaysEmpty index).Persists Finding.verdict :=
  onEmpty_persists index _ _

theorem fromList_persists : fromList.Persists Finding.verdict := by
  intro lib ctx c c' h
  unfold fromList
  rw [h.displayCall]
  cases harg : c.arg? 0 with
  | none => exact stays_none
  | some l =>
    rw [h.arg? harg]
    exact stays_ite (fun _ => stays_some rfl) fun _ => stays_none

theorem setFromList_persists : setFromList.Persists Finding.verdict := by
  intro lib ctx c c' h
  have hplain := fromList_persists lib ctx c c' h
  unfold setFromList
  cases harg : c.arg? 0 with
  | none =>
    rw [fromList, harg]
    exact stays_none
  | some l =>
    rw [h.arg? harg]
    dsimp only [Option.bind_some]
    rcases l.list? with _ | _ | ⟨only, _ | ⟨second, rest⟩⟩
    · exact hplain
    · exact hplain
    · exact stays_some rfl
    · exact hplain

/-- The identity is reported before the set is looked at. -/
theorem setMap_persists : setMap.Persists Finding.verdict := by
  intro lib ctx c c' h
  unfold setMap
  cases harg : c.arg? 0 with
  | none => exact stays_none
  | some function =>
    rw [h.arg? harg]
    refine stays_ite (fun _ => stays_some ?_) fun _ => emptyStaysEmpty_persists 1 lib ctx c c' h
    simp

/-- A test with a known result is reported before the set is looked at. -/
theorem setFilter_persists : setFilter.Persists Finding.verdict := by
  intro lib ctx c c' h
  unfold setFilter
  cases harg : c.arg? 0 with
  | none => exact stays_none
  | some predicate =>
    rw [h.arg? harg]
    refine stays_ite (fun _ => stays_some ?_) fun _ => ?_
    · simp
    refine stays_ite (fun _ => stays_some ?_) fun _ => emptyStaysEmpty_persists 1 lib ctx c c' h
    simp

/-- Both sets have to be there for anything to be found. -/
theorem union_persists : union.Persists Finding.verdict := by
  intro lib ctx c c' h
  unfold union
  cases hfirst : c.arg? 0 with
  | none => exact stays_none
  | some first =>
    cases hsecond : c.arg? 1 with
    | none => exact stays_none
    | some second =>
      rw [h.arg? hfirst, h.arg? hsecond]
      refine stays_ite (fun _ => stays_some rfl) fun _ => ?_
      exact stays_ite (fun _ => stays_some rfl) fun _ => stays_none

/-- The first set alone can be reported, and then the second one does not matter. -/
theorem intersect_persists : intersect.Persists Finding.verdict := by
  intro lib ctx c c' h
  unfold intersect
  cases harg : c.arg? 0 with
  | none => exact stays_none
  | some first =>
    rw [h.arg? harg]
    exact stays_ite (fun _ => emptyStaysEmpty_persists 0 lib ctx c c' h) fun _ =>
      emptyStaysEmpty_persists 1 lib ctx c c' h

theorem diff_persists : diff.Persists Finding.verdict := by
  intro lib ctx c c' h
  unfold diff
  cases hfirst : c.arg? 0 with
  | none => exact stays_none
  | some first =>
    cases hsecond : c.arg? 1 with
    | none => exact stays_none
    | some second =>
      rw [h.arg? hfirst, h.arg? hsecond]
      refine stays_ite (fun _ => emptyStaysEmpty_persists 0 lib ctx c c' h) fun _ => ?_
      exact stays_ite (fun _ => stays_some rfl) fun _ => stays_none

/-- No function of `Set` takes a finding back when more arguments come. -/
theorem setFamily_persists :
    ∀ c ∈ setFamily.checks, CallCheck.Persists Finding.verdict c.2 := by
  simp only [setFamily, List.forall_mem_cons]
  exact ⟨setMap_persists, setFilter_persists, onEmpty_persists _ _ _, onEmpty_persists _ _ _,
    setFromList_persists, onEmpty_persists _ _ _, onEmpty_persists _ _ _,
    emptyStaysEmpty_persists 1, union_persists, intersect_persists, diff_persists,
    onEmpty_persists _ _ _, by simp⟩

/-- No function of `Dict` takes a finding back when more arguments come. -/
theorem dictFamily_persists :
    ∀ c ∈ dictFamily.checks, CallCheck.Persists Finding.verdict c.2 := by
  simp only [dictFamily, List.forall_mem_cons]
  exact ⟨onEmpty_persists _ _ _, fromList_persists, onEmpty_persists _ _ _,
    onEmpty_persists _ _ _, onEmpty_persists _ _ _, onEmpty_persists _ _ _,
    onEmpty_persists _ _ _, emptyStaysEmpty_persists 1, emptyStaysEmpty_persists 1,
    union_persists, emptyStaysEmpty_persists 1, onEmpty_persists _ _ _, by simp⟩

end Rule.Collection

/-! ## Effects -/

namespace Rule.Effect

/-- A batch has one argument, so further ones are not looked at. -/
theorem batch_persists : batch.Persists Finding.verdict := by
  intro lib ctx c c' h
  unfold batch
  rw [h.displayCall]
  cases hlist : (c.arg? 0).bind Expr.list? with
  | none => exact stays_none
  | some elements =>
    rw [h.bind_arg? hlist]
    match elements with
    | [] => exact stays_some rfl
    | [only] => exact stays_some rfl
    | first :: second :: rest =>
      dsimp only [dropNone]
      cases (first :: second :: rest).find? (isNone lib ctx) with
      | none => exact stays_none
      | some e => exact stays_ite (fun _ => stays_some rfl) fun _ => stays_some rfl

theorem map_persists : map.Persists Finding.verdict := by
  intro lib ctx c c' h
  unfold map
  rw [h.displayCall]
  cases harg : c.arg? 0 with
  | none => exact stays_none
  | some function =>
    rw [h.arg? harg]
    refine stays_ite (fun _ => stays_some ?_) fun _ => ?_
    · simp
    cases heffect : c.arg? 1 with
    | none => exact stays_none
    | some effect =>
      rw [h.arg? heffect]
      exact stays_ite (fun _ => stays_some rfl) fun _ => stays_none

theorem cmdFamily_persists : ∀ c ∈ cmdFamily.checks, CallCheck.Persists Finding.verdict c.2 := by
  simp only [cmdFamily, List.forall_mem_cons]
  exact ⟨batch_persists, map_persists, by simp⟩

theorem subFamily_persists : ∀ c ∈ subFamily.checks, CallCheck.Persists Finding.verdict c.2 := by
  simp only [subFamily, List.forall_mem_cons]
  exact ⟨batch_persists, map_persists, by simp⟩

end Rule.Effect

/-! ## All families -/

namespace Family

variable {family : Family} {ctx : Context} {c c' : Call}

/-- Of the checks of all families, only the one of `String.join` may come to say something else. -/
theorem check_persists (hfamily : family ∈ all) {name : String} {check : CallCheck}
    (h : (name, check) ∈ family.checks) :
    check.Persists Finding.verdict ∨
      (family.library.path = Core.string ∧ name = "join") ∧ check.Persists Finding.rule := by
  simp only [all, List.mem_cons, List.not_mem_nil, or_false] at hfamily
  rcases hfamily with rfl | rfl | rfl | rfl | rfl | rfl | rfl | rfl
  · exact .inl (Rule.Lists.family_persists _ h)
  · rcases Rule.Strings.family_persists _ h with heq | hpersists
    · obtain ⟨rfl, rfl⟩ := Prod.mk.inj heq
      exact .inr ⟨⟨rfl, rfl⟩, Rule.Strings.join_persists⟩
    · exact .inl hpersists
  · exact .inl (Rule.Wrapped.maybeFamily_persists _ h)
  · exact .inl (Rule.Wrapped.resultFamily_persists _ h)
  · exact .inl (Rule.Collection.setFamily_persists _ h)
  · exact .inl (Rule.Collection.dictFamily_persists _ h)
  · exact .inl (Rule.Effect.cmdFamily_persists _ h)
  · exact .inl (Rule.Effect.subFamily_persists _ h)

/-- What a family finds in a call is found with further arguments, too, under the same code, and
with the same message unless the function is `String.join`. -/
theorem checkCall_persists (hfamily : family ∈ all) (h : c.Continues c') {f : Finding}
    (hf : family.checkCall ctx c = some f) :
    ∃ f', family.checkCall ctx c' = some f' ∧ f'.rule = f.rule ∧
      (c.function ≠ ⟨Core.string, "join"⟩ → f'.message = f.message) := by
  obtain ⟨hpath, check, hlookup, hcheck⟩ := checkCall_eq_some_iff.mp hf
  have hlater : ∀ {f'}, check family.library ctx c' = some f' →
      family.checkCall ctx c' = some f' := by
    intro f' hf'
    rw [← h.function] at hpath hlookup
    exact checkCall_eq_some_iff.mpr ⟨hpath, check, hlookup, hf'⟩
  rcases check_persists hfamily (mem_of_lookup hlookup) with hpersists | ⟨⟨hstring, hjoin⟩, hpersists⟩
  · obtain ⟨f', hf', hverdict⟩ := hpersists family.library ctx c c' h f hcheck
    obtain ⟨hrule, hmessage⟩ := Prod.mk.inj hverdict
    exact ⟨f', hlater hf', hrule, fun _ => hmessage⟩
  · obtain ⟨f', hf', hrule⟩ := hpersists family.library ctx c c' h f hcheck
    have hfunction : c.function = ⟨Core.string, "join"⟩ := by
      rw [← hstring, ← hpath, ← hjoin]
    exact ⟨f', hlater hf', hrule, fun hne => absurd hfunction hne⟩

end Family

end Terse
