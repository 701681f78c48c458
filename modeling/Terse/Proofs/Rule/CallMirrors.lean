import Terse.Proofs.Rule.Mirror
import Terse.Rule.Catalog

/-!
# Calls that are twins

What a family finds in a call mirrors what it finds in a twin of the call.
-/

namespace Terse

variable {place place' : Location → Prop}

/-! ## Lists -/

namespace Rule.Lists

section

variable {ctx : Context} (source : SourceText) (isFree : Bool) {e e' : Expr} {c c' : Call}

/-- Twins of a call are named alike in messages. -/
theorem emptyListMessage_twin (h : Call.Twins place place' ctx e e' c c') (lib : Library)
    (result : String) : emptyListMessage lib c result = emptyListMessage lib c' result := by
  rw [emptyListMessage, emptyListMessage, h.displayCall]

/-- Replacing a call hits all of it on both sides. -/
theorem replaceOnEmpty_mirrors {P : Prop} (h : Call.Twins place place' ctx e e' c c')
    (lib : Library) (result : String) :
    (replaceOnEmpty lib ctx c result).Mirrors P e e'
      (replaceOnEmpty lib (ctx.moved source isFree) c' result) :=
  h.replaceCall lib (emptyListMessage_twin h lib result) _ _ _ _

/-- An empty list is recognized on both sides, and both calls are replaced as a whole. -/
theorem emptyStaysEmpty_mirrors {P : Prop} (h : Call.Twins place place' ctx e e' c c')
    (lib : Library) (index : Nat) :
    Mirrored P e e' (emptyStaysEmpty lib ctx c index)
      (emptyStaysEmpty lib (ctx.moved source isFree) c' index) := by
  have harg := h.arg? index
  unfold emptyStaysEmpty
  generalize c.arg? index = a, c'.arg? index = a' at harg ⊢
  cases harg with
  | none => exact .none
  | some hl =>
    dsimp only
    rw [hl.twin.isEmptyList]
    exact .ite (.some (replaceOnEmpty_mirrors source isFree h lib "[]")) .none

/-- A twin of a function that makes a list of its parameter does so, too. -/
theorem isSingletonFunction_twin {x x' : Expr} (h : x.Twin x') :
    isSingletonFunction (ctx.moved source isFree) x' = isSingletonFunction ctx x := by
  have hmoved : isSingletonFunction (ctx.moved source isFree) x' = isSingletonFunction ctx x' :=
    rfl
  rw [hmoved, ← isSingletonFunction_erase, ← h.erase, isSingletonFunction_erase]

/-- A twin of a function that always returns `Nothing` does so, too. -/
theorem alwaysNothing_twin {x x' : Expr} (h : x.Twin x') :
    alwaysNothing (ctx.moved source isFree) x' = alwaysNothing ctx x := by
  have hmoved : alwaysNothing (ctx.moved source isFree) x' = alwaysNothing ctx x' := rfl
  rw [hmoved, ← alwaysNothing_erase, ← h.erase, alwaysNothing_erase]

/-- Which integer an argument is does not depend on parentheses. -/
theorem isNotPositive_twin (h : Call.Twins place place' ctx e e' c c') (index : Nat) :
    isNotPositive c' index = isNotPositive c index := by
  rw [isNotPositive, isNotPositive, h.int?]

/-- An element of a list equals a value when one of the twin does. -/
theorem any_areEqual_twin {xs xs' : List Expr} (h : List.Forall₂ (Expr.Facing e e') xs xs')
    {x x' : Expr} (hx : x.Twin x') :
    xs'.any ((ctx.moved source isFree).areEqual · x') = xs.any (ctx.areEqual · x) := by
  rw [Context.areEqual_moved]
  induction h with
  | nil => rfl
  | cons hy _ ih => rw [List.any_cons, List.any_cons, hy.twin.areEqual ctx hx, ih]

end

/-! ### Mapping and filtering -/

/-- Either the list is kept on both sides, or both calls are replaced. -/
theorem map_mirrors : map.Mirrors := by
  intro _ _ lib ctx source isFree e e' c c' h
  have hfunction := h.arg? 0
  unfold map
  generalize c.arg? 0 = a, c'.arg? 0 = a' at hfunction ⊢
  cases hfunction with
  | none => exact .none
  | some hfunction =>
    dsimp only
    rw [Context.isIdentity_moved, hfunction.twin.isIdentity]
    exact .ite (.some (h.keepArgOrIdentity lib rfl 1))
      (emptyStaysEmpty_mirrors source isFree h lib 1)

/-- Only an empty list is reported, and both calls are replaced. -/
theorem indexedMap_mirrors : indexedMap.Mirrors := by
  intro _ _ lib ctx source isFree e e' c c' h
  exact emptyStaysEmpty_mirrors source isFree h lib 1

/-- A test that always passes keeps the list, a test that never does leaves an empty one. -/
theorem filter_mirrors : filter.Mirrors := by
  intro _ _ lib ctx source isFree e e' c c' h
  have hpredicate := h.arg? 0
  unfold filter
  generalize c.arg? 0 = a, c'.arg? 0 = a' at hpredicate ⊢
  cases hpredicate with
  | none => exact .none
  | some hpredicate =>
    dsimp only
    rw [Context.isAlwaysBool_moved, hpredicate.twin.isAlwaysBool, hpredicate.twin.isAlwaysBool]
    exact .ite (.some (h.keepArgOrIdentity lib rfl 1))
      (.ite (.some (h.valueOrAlways lib rfl 1 _ _ _ _))
        (emptyStaysEmpty_mirrors source isFree h lib 1))

/-- With `Just` the list is kept, otherwise the call is replaced. -/
theorem filterMap_mirrors : filterMap.Mirrors := by
  intro _ _ lib ctx source isFree e e' c c' h
  have hfunction := h.arg? 0
  unfold filterMap
  generalize c.arg? 0 = a, c'.arg? 0 = a' at hfunction ⊢
  cases hfunction with
  | none => exact .none
  | some hfunction =>
    dsimp only
    rw [Context.isReference_moved, hfunction.twin.isReference,
      alwaysNothing_twin source isFree hfunction.twin]
    exact .ite (.some (h.keepArgOrIdentity lib rfl 1))
      (.ite (.some (h.valueOrAlways lib rfl 1 _ _ _ _))
        (emptyStaysEmpty_mirrors source isFree h lib 1))

/-- With the identity behind its name, the fix hits the name and the function only, on both
sides. -/
theorem concatMap_mirrors : concatMap.Mirrors := by
  intro _ _ lib ctx source isFree e e' c c' h
  have hfunction := h.arg? 0
  unfold concatMap
  generalize ha : c.arg? 0 = a, ha' : c'.arg? 0 = a' at hfunction ⊢
  cases hfunction with
  | none => exact .none
  | some hfunction =>
    dsimp only
    rw [Context.isIdentity_moved, hfunction.twin.isIdentity, h.argIsAdjacent,
      isSingletonFunction_twin source isFree hfunction.twin]
    split
    · rename_i hadjacent
      rw [Bool.and_eq_true] at hadjacent
      exact .some (h.through_first rfl ha ha' hadjacent.2 rfl rfl)
    · exact .ite (.some (h.keepArgOrIdentity lib rfl 1))
        (emptyStaysEmpty_mirrors source isFree h lib 1)

/-! ### Other functions -/

/-- The list beside an empty one is kept; two lists that are written out are written anew as one. -/
theorem append_mirrors : append.Mirrors := by
  intro _ _ lib ctx source isFree e e' c c' h
  have hfirst := h.arg? 0
  have hsecond := h.arg? 1
  unfold append
  generalize c.arg? 0 = a, c'.arg? 0 = a', c.arg? 1 = b, c'.arg? 1 = b' at hfirst hsecond ⊢
  cases hfirst with
  | none => exact .none
  | @some first first' hfirst =>
    cases hsecond with
    | none => exact .none
    | @some second second' hsecond =>
      have hxs := hfirst.list?
      have hys := hsecond.list?
      dsimp only
      rw [hfirst.twin.isEmptyList, hsecond.twin.isEmptyList]
      refine .ite (.some (h.keepArg lib rfl hsecond)) (.ite (.some (h.keepArg lib rfl hfirst)) ?_)
      generalize first.list? = xs, first'.list? = xs', second.list? = ys, second'.list? = ys' at *
      cases hxs with
      | none => exact .none
      | some =>
        cases hys with
        | none => exact .none
        | some => exact .some (h.replaceCall lib rfl _ _ _ _)

theorem isEmpty_mirrors : isEmpty.Mirrors := by
  intro _ _ lib ctx source isFree e e' c c' h
  have hl := h.list? 0
  unfold isEmpty
  generalize (c.arg? 0).bind Expr.list? = xs, (c'.arg? 0).bind Expr.list? = xs' at hl ⊢
  cases hl with
  | none => exact .none
  | some hxs =>
    refine .some (h.replaceCall lib ?_ _ _ _ _)
    cases hxs <;> rfl

/-- Both calls are replaced by the same boolean. -/
theorem quantifier_mirrors (onEmpty : Bool) : (quantifier onEmpty).Mirrors := by
  intro _ _ lib ctx source isFree e e' c c' h
  have hpredicate := h.arg? 0
  have hl := h.arg? 1
  unfold quantifier
  rw [h.displayCall]
  generalize c.arg? 0 = a, c'.arg? 0 = a', c.arg? 1 = b, c'.arg? 1 = b' at hpredicate hl ⊢
  cases hpredicate with
  | none => exact .none
  | some hpredicate =>
    dsimp only
    rw [Context.isAlwaysBool_moved, hpredicate.twin.isAlwaysBool]
    refine .ite (.some (h.valueOrAlways lib rfl 1 _ _ _ _)) ?_
    cases hl with
    | none => exact .none
    | some hl =>
      dsimp only
      rw [hl.twin.isEmptyList]
      exact .ite (.some (h.replaceCall lib rfl _ _ _ _)) .none

/-- The value equals an element on both sides or on neither, since twins are equal. -/
theorem member_mirrors : member.Mirrors := by
  intro _ _ lib ctx source isFree e e' c c' h
  have hneedle := h.arg? 0
  have hl := h.list? 1
  unfold member
  generalize c.arg? 0 = a, c'.arg? 0 = a', (c.arg? 1).bind Expr.list? = xs,
    (c'.arg? 1).bind Expr.list? = xs' at hneedle hl ⊢
  cases hneedle with
  | none => exact .none
  | some hneedle =>
    cases hl with
    | none => exact .none
    | some hxs =>
      cases hxs with
      | nil => exact .some (replaceOnEmpty_mirrors source isFree h lib _)
      | cons hx hxs =>
        dsimp only
        rw [any_areEqual_twin source isFree (.cons hx hxs) hneedle.twin]
        exact .ite (.some (h.replaceCall lib rfl _ _ _ _)) .none

/-- Twins of a list have as many elements. -/
theorem length_mirrors : length.Mirrors := by
  intro _ _ lib ctx source isFree e e' c c' h
  have hl := h.list? 0
  unfold length
  generalize (c.arg? 0).bind Expr.list? = xs, (c'.arg? 0).bind Expr.list? = xs' at hl ⊢
  cases hl with
  | none => exact .none
  | some hxs => exact .some (h.replaceCall lib (by rw [hxs.length_eq]) _ _ _ _)

/-- Both ends are the same integers. -/
theorem range_mirrors : range.Mirrors := by
  intro _ _ lib ctx source isFree e e' c c' h
  unfold range
  rw [h.int?, h.int?]
  split
  · exact .ite .none (.some (h.replaceCall lib rfl _ _ _ _))
  · exact .none

theorem replicate_mirrors : replicate.Mirrors := by
  intro _ _ lib ctx source isFree e e' c c' h
  unfold replicate
  rw [isNotPositive_twin h]
  exact .ite (.some (h.valueOrAlways lib rfl 1 _ _ _ _)) .none

theorem take_mirrors : take.Mirrors := by
  intro _ _ lib ctx source isFree e e' c c' h
  unfold take
  rw [isNotPositive_twin h]
  exact .ite (.some (h.valueOrAlways lib rfl 1 _ _ _ _))
    (emptyStaysEmpty_mirrors source isFree h lib 1)

theorem drop_mirrors : drop.Mirrors := by
  intro _ _ lib ctx source isFree e e' c c' h
  unfold drop
  rw [isNotPositive_twin h]
  exact .ite (.some (h.keepArgOrIdentity lib rfl 1))
    (emptyStaysEmpty_mirrors source isFree h lib 1)

/-- A list of at most one element is kept, and so is what an inner reversal is given. -/
theorem reverse_mirrors : reverse.Mirrors := by
  intro _ _ lib ctx source isFree e e' c c' h
  have hargument := h.arg? 0
  unfold reverse
  generalize c.arg? 0 = a, c'.arg? 0 = a' at hargument ⊢
  cases hargument with
  | none => exact .none
  | @some argument argument' hargument =>
    have hl := hargument.list?
    dsimp only
    generalize argument.list? = xs, argument'.list? = xs' at hl ⊢
    cases hl with
    | none =>
      rw [Context.argOfCall?_moved]
      exact .map (Call.facing_argOfCall? ctx hargument Core.list "reverse") fun _ _ hinner =>
        h.keepArg lib rfl hinner
    | some hxs =>
      cases hxs with
      | nil => exact .some (replaceOnEmpty_mirrors source isFree h lib "[]")
      | cons _ hmore =>
        cases hmore with
        | nil => exact .some (h.keepArg lib rfl hargument)
        | cons => exact .none

/-- The start value is kept on both sides. -/
theorem fold_mirrors : fold.Mirrors := by
  intro _ _ lib ctx source isFree e e' c c' h
  have hinitial := h.arg? 1
  have hl := h.arg? 2
  unfold fold
  rw [h.displayCall]
  generalize c.arg? 1 = a, c'.arg? 1 = a', c.arg? 2 = b, c'.arg? 2 = b' at hinitial hl ⊢
  cases hinitial with
  | none => exact .none
  | some hinitial =>
    cases hl with
    | none => exact .none
    | some hl =>
      dsimp only
      rw [hl.twin.isEmptyList]
      exact .ite (.some (h.keepArg lib rfl hinitial)) .none

/-- The list is written into a pair, which replaces the call as a whole. -/
theorem partition_mirrors : partition.Mirrors := by
  intro _ _ lib ctx source isFree e e' c c' h
  have hpredicate := h.arg? 0
  have hl := h.arg? 1
  unfold partition
  generalize c.arg? 0 = a, c'.arg? 0 = a', c.arg? 1 = b, c'.arg? 1 = b' at hpredicate hl ⊢
  cases hpredicate with
  | none => exact .none
  | some hpredicate =>
    cases hl with
    | none => exact .none
    | some hl =>
      dsimp only
      rw [hl.twin.isEmptyList, Context.isAlwaysBool_moved, hpredicate.twin.isAlwaysBool,
        hpredicate.twin.isAlwaysBool]
      exact .ite (.some (replaceOnEmpty_mirrors source isFree h lib _))
        (.ite (.some (h.replaceCall lib rfl _ _ _ _))
          (.ite (.some (h.replaceCall lib rfl _ _ _ _)) .none))

/-- An element is taken out of the list by writing its text, which replaces the call as a whole. -/
theorem head_mirrors : head.Mirrors := by
  intro _ _ lib ctx source isFree e e' c c' h
  have hl := h.list? 0
  unfold head
  generalize (c.arg? 0).bind Expr.list? = xs, (c'.arg? 0).bind Expr.list? = xs' at hl ⊢
  cases hl with
  | none => exact .none
  | some hxs =>
    cases hxs with
    | nil => exact .some (replaceOnEmpty_mirrors source isFree h lib _)
    | cons => exact .some (h.replaceCall lib rfl _ _ _ _)

theorem tail_mirrors : tail.Mirrors := by
  intro _ _ lib ctx source isFree e e' c c' h
  have hl := h.list? 0
  unfold tail
  generalize (c.arg? 0).bind Expr.list? = xs, (c'.arg? 0).bind Expr.list? = xs' at hl ⊢
  cases hl with
  | none => exact .none
  | some hxs =>
    cases hxs with
    | nil => exact .some (replaceOnEmpty_mirrors source isFree h lib _)
    | cons => exact .some (h.replaceCall lib rfl _ _ _ _)

/-- The only element is written as an optional value. -/
theorem extremum_mirrors : extremum.Mirrors := by
  intro _ _ lib ctx source isFree e e' c c' h
  have hl := h.list? 0
  unfold extremum
  rw [h.displayCall]
  generalize (c.arg? 0).bind Expr.list? = xs, (c'.arg? 0).bind Expr.list? = xs' at hl ⊢
  cases hl with
  | none => exact .none
  | some hxs =>
    cases hxs with
    | nil => exact .some (replaceOnEmpty_mirrors source isFree h lib _)
    | cons _ hmore =>
      cases hmore with
      | nil => exact .some (h.replaceCall lib rfl _ _ _ _)
      | cons => exact .none

/-- The only element is kept, and for none the neutral number is written. -/
theorem aggregate_mirrors (neutral : String) : (aggregate neutral).Mirrors := by
  intro _ _ lib ctx source isFree e e' c c' h
  have hl := h.list? 0
  unfold aggregate
  rw [h.displayCall]
  generalize (c.arg? 0).bind Expr.list? = xs, (c'.arg? 0).bind Expr.list? = xs' at hl ⊢
  cases hl with
  | none => exact .none
  | some hxs =>
    cases hxs with
    | nil => exact .some (replaceOnEmpty_mirrors source isFree h lib _)
    | cons hx hmore =>
      cases hmore with
      | nil => exact .some (h.keepArg lib rfl hx)
      | cons => exact .none

/-- The argument is written in brackets, so nothing in it is spared on either side. -/
theorem singleton_mirrors : singleton.Mirrors := by
  intro _ _ lib ctx source isFree e e' c c' h
  exact .map (h.arg? 0) fun _ _ _ => h.replaceCall lib rfl _ _ _ _

end Rule.Lists

/-! ## Texts -/

namespace Rule.Strings

/-- An empty text is recognized on both sides, and both calls are replaced as a whole. -/
theorem onEmptyString_mirrors {P : Prop} {ctx : Context} (source : SourceText) (isFree : Bool)
    {e e' : Expr} {c c' : Call} (h : Call.Twins place place' ctx e e' c c') (lib : Library)
    (index : Nat) (result : String) :
    Mirrored P e e' (onEmptyString lib ctx c index result)
      (onEmptyString lib (ctx.moved source isFree) c' index result) := by
  have harg := h.arg? index
  unfold onEmptyString
  rw [h.displayCall]
  generalize c.arg? index = a, c'.arg? index = a' at harg ⊢
  cases harg with
  | none => exact .none
  | some hs =>
    dsimp only
    rw [hs.twin.isEmptyString]
    exact .ite (.some (h.replaceCall lib rfl _ _ _ _)) .none

theorem isEmpty_mirrors : isEmpty.Mirrors := by
  intro _ _ lib ctx source isFree e e' c c' h
  unfold isEmpty
  rw [h.string?]
  split
  · exact .none
  · exact .some (h.replaceCall lib rfl _ _ _ _)

/-- Only the empty list is reported. -/
theorem concat_mirrors : concat.Mirrors := by
  intro _ _ lib ctx source isFree e e' c c' h
  have hl := h.arg? 0
  unfold concat
  generalize c.arg? 0 = a, c'.arg? 0 = a' at hl ⊢
  cases hl with
  | none => exact .none
  | some hl =>
    dsimp only
    rw [hl.twin.isEmptyList]
    exact .ite (.some (h.replaceCall lib rfl _ _ _ _)) .none

/-- With an empty separator behind the name, the fix hits the name and the separator only, on both
sides. -/
theorem join_mirrors : join.Mirrors := by
  intro _ _ lib ctx source isFree e e' c c' h
  have hseparator := h.arg? 0
  have hempty : hasEmptyList c' 1 = hasEmptyList c 1 := by
    have hlist := h.arg? 1
    unfold hasEmptyList
    generalize c.arg? 1 = a, c'.arg? 1 = a' at hlist ⊢
    cases hlist with
    | none => rfl
    | some hlist => exact hlist.twin.isEmptyList
  unfold join
  generalize ha : c.arg? 0 = a, ha' : c'.arg? 0 = a' at hseparator ⊢
  cases hseparator with
  | none => exact .none
  | some hseparator =>
    dsimp only
    rw [hempty, hseparator.twin.isEmptyString, h.argIsAdjacent]
    refine .ite (.some (h.replaceCall lib rfl _ _ _ _)) ?_
    split
    · rename_i hadjacent
      rw [Bool.and_eq_true] at hadjacent
      exact .some (h.through_first rfl ha ha' hadjacent.2 rfl rfl)
    · exact .none

theorem length_mirrors : length.Mirrors := by
  intro _ _ lib ctx source isFree e e' c c' h
  unfold length
  rw [h.string?]
  split
  · exact .none
  · exact .some (h.replaceCall lib rfl _ _ _ _)

/-- A text that is repeated once is kept; all other calls that are reported are replaced. -/
theorem replicate_mirrors : replicate.Mirrors := by
  intro _ _ lib ctx source isFree e e' c c' h
  unfold replicate
  rw [h.int?]
  exact .ite (.some (h.valueOrAlways lib rfl 1 _ _ _ _))
    (.ite (.some (h.keepArgOrIdentity lib rfl 1))
      (onEmptyString_mirrors source isFree h lib 1 _))

theorem split_mirrors : split.Mirrors := by
  intro _ _ lib ctx source isFree e e' c c' h
  exact onEmptyString_mirrors source isFree h lib 0 "[]"

/-- What an inner reversal is given is kept on both sides. -/
theorem reverse_mirrors : reverse.Mirrors := by
  intro _ _ lib ctx source isFree e e' c c' h
  have hempty := onEmptyString_mirrors (P := True) source isFree h lib 0 emptyText
  have hargument := h.arg? 0
  unfold reverse
  generalize onEmptyString lib ctx c 0 emptyText = o,
    onEmptyString lib (ctx.moved source isFree) c' 0 emptyText = o', c.arg? 0 = a,
    c'.arg? 0 = a' at hempty hargument ⊢
  cases hempty with
  | some hfound => exact .some hfound
  | none =>
    cases hargument with
    | none => exact .none
    | some hargument =>
      rw [Option.bind_some, Option.bind_some, Context.argOfCall?_moved]
      exact .map (Call.facing_argOfCall? ctx hargument Core.string "reverse") fun _ _ hinner =>
        h.keepArg lib rfl hinner

/-- The only character is written behind another function, which replaces the call as a whole. -/
theorem fromList_mirrors : fromList.Mirrors := by
  intro _ _ lib ctx source isFree e e' c c' h
  have hl := h.list? 0
  unfold fromList
  generalize (c.arg? 0).bind Expr.list? = xs, (c'.arg? 0).bind Expr.list? = xs' at hl ⊢
  cases hl with
  | none => exact .none
  | some hxs =>
    cases hxs with
    | nil => exact .some (h.replaceCall lib rfl _ _ _ _)
    | cons _ hmore =>
      cases hmore with
      | nil => exact .some (h.replaceCall lib rfl _ _ _ _)
      | cons => exact .none

/-- What stands beside an empty text faces that of the twin. -/
theorem facing_besideEmpty? {e e' x x' y y' : Expr} (hx : Expr.Facing e e' x x')
    (hy : Expr.Facing e e' y y') :
    Option.Rel (Expr.Facing e e') (besideEmpty? x y) (besideEmpty? x' y') := by
  unfold besideEmpty?
  rw [hx.twin.isEmptyString, hy.twin.isEmptyString]
  split
  · exact .some hy
  · split
    · exact .some hx
    · exact .none

/-- The text beside the empty one is kept on both sides. -/
theorem append_mirrors : append.Mirrors := by
  intro _ _ lib ctx source isFree e e' c c' h
  have hfirst := h.arg? 0
  have hsecond := h.arg? 1
  unfold append
  generalize c.arg? 0 = a, c'.arg? 0 = a', c.arg? 1 = b, c'.arg? 1 = b' at hfirst hsecond ⊢
  cases hfirst with
  | none => exact .none
  | some hfirst =>
    cases hsecond with
    | none => exact .none
    | some hsecond =>
      exact .map (facing_besideEmpty? hfirst hsecond) fun _ _ hkept => h.keepArg lib rfl hkept

end Rule.Strings

/-! ## Wrapped values -/

namespace Rule.Wrapped

section

variable {e e' x x' : Expr} (h : Expr.Facing e e' x x') (lib : Library) (ctx : Context)
  (source : SourceText) (isFree : Bool) (constructor : String)
include h

/-- What a constructor holds faces what the same constructor holds in the twin. -/
theorem facing_payload? : Option.Rel (Expr.Facing e e') (payload? lib ctx x constructor)
    (payload? lib (ctx.moved source isFree) x' constructor) := by
  unfold payload?
  rw [Context.argOfCall?_moved]
  exact Call.facing_argOfCall? ctx h lib.path constructor

/-- Values that face each other are made with the same constructor. -/
theorem isMadeWith_facing :
    isMadeWith lib (ctx.moved source isFree) x' constructor = isMadeWith lib ctx x constructor := by
  have hmoved : isMadeWith lib (ctx.moved source isFree) x' constructor =
      isMadeWith lib ctx x' constructor := by
    simp only [isMadeWith, payload?, Library.isReference_moved, Context.argOfCall?_moved]
  rw [hmoved, ← isMadeWith_erase, ← h.twin.erase, isMadeWith_erase]

end

/-- The value is kept when the function is the identity, or when the value is passed through. -/
theorem mapLike_mirrors (shape : Shape) : (mapLike shape).Mirrors := by
  intro _ _ lib ctx source isFree e e' c c' h
  have hfunction := h.arg? 0
  have hvalue := h.arg? 1
  unfold mapLike passThrough knownMessage
  rw [h.displayCall]
  generalize c.arg? 0 = a, c'.arg? 0 = a', c.arg? 1 = b, c'.arg? 1 = b' at hfunction hvalue ⊢
  cases hfunction with
  | none => exact .none
  | some hfunction =>
    dsimp only
    rw [Context.isIdentity_moved, hfunction.twin.isIdentity]
    refine .ite (.some (h.keepArgOrIdentity lib rfl 1)) ?_
    cases hvalue with
    | none => exact .none
    | some hvalue =>
      dsimp only
      rw [isMadeWith_facing hvalue]
      refine .ite (.some (h.keepArg lib rfl hvalue)) ?_
      exact .map (facing_payload? hvalue lib ctx source isFree _) fun _ _ _ =>
        h.replaceCall lib rfl _ _ _ _

/-- The value is kept, or the function is written before what the value holds. -/
theorem andThenLike_mirrors (shape : Shape) : (andThenLike shape).Mirrors := by
  intro _ _ lib ctx source isFree e e' c c' h
  have hfunction := h.arg? 0
  have hvalue := h.arg? 1
  unfold andThenLike passThrough knownMessage
  rw [h.displayCall]
  generalize c.arg? 0 = a, c'.arg? 0 = a', c.arg? 1 = b, c'.arg? 1 = b' at hfunction hvalue ⊢
  cases hfunction with
  | none => exact .none
  | some hfunction =>
    dsimp only
    rw [Library.isReference_moved, Library.isReference, Library.isReference,
      hfunction.twin.isReference]
    refine .ite (.some (h.keepArgOrIdentity lib rfl 1)) ?_
    cases hvalue with
    | none => exact .none
    | some hvalue =>
      dsimp only
      rw [isMadeWith_facing hvalue]
      refine .ite (.some (h.keepArg lib rfl hvalue)) ?_
      exact .map (facing_payload? hvalue lib ctx source isFree _) fun _ _ _ =>
        h.replaceCall lib rfl _ _ _ _

/-- Either what the value holds is kept, or the default. -/
theorem withDefaultLike_mirrors (shape : Shape) : (withDefaultLike shape).Mirrors := by
  intro _ _ lib ctx source isFree e e' c c' h
  have hfallback := h.arg? 0
  have hvalue := h.arg? 1
  unfold withDefaultLike
  rw [h.displayCall]
  generalize c.arg? 0 = a, c'.arg? 0 = a', c.arg? 1 = b, c'.arg? 1 = b' at hfallback hvalue ⊢
  cases hfallback with
  | none => exact .none
  | some hfallback =>
    cases hvalue with
    | none => exact .none
    | @some value value' hvalue =>
      have hpayload := facing_payload? hvalue lib ctx source isFree shape.worked
      dsimp only
      rw [isMadeWith_facing hvalue]
      generalize payload? lib ctx value shape.worked = o,
        payload? lib (ctx.moved source isFree) value' shape.worked = o' at hpayload ⊢
      cases hpayload with
      | some hpayload => exact .some (h.keepArg lib rfl hpayload)
      | none => exact .ite (.some (h.keepArg lib rfl hfallback)) .none

/-- The payload is written as an optional value, which replaces the call as a whole. -/
theorem toMaybe_mirrors : toMaybe.Mirrors := by
  intro _ _ lib ctx source isFree e e' c c' h
  have hvalue := h.arg? 0
  unfold toMaybe
  generalize c.arg? 0 = a, c'.arg? 0 = a' at hvalue ⊢
  cases hvalue with
  | none => exact .none
  | @some value value' hvalue =>
    have hpayload := facing_payload? hvalue lib ctx source isFree "Ok"
    dsimp only
    rw [isMadeWith_facing hvalue]
    generalize payload? lib ctx value "Ok" = o,
      payload? lib (ctx.moved source isFree) value' "Ok" = o' at hpayload ⊢
    cases hpayload with
    | some => exact .some (h.replaceCall lib rfl _ _ _ _)
    | none => exact .ite (.some (h.replaceCall lib rfl _ _ _ _)) .none

/-- All functions of `Maybe` mirror their findings at twins. -/
theorem maybeFamily_mirrors : ∀ c ∈ maybeFamily.checks, CallCheck.Mirrors c.2 := by
  simp only [maybeFamily, List.forall_mem_cons]
  exact ⟨mapLike_mirrors _, andThenLike_mirrors _, withDefaultLike_mirrors _, by simp⟩

/-- All functions of `Result` mirror their findings at twins. -/
theorem resultFamily_mirrors : ∀ c ∈ resultFamily.checks, CallCheck.Mirrors c.2 := by
  simp only [resultFamily, List.forall_mem_cons]
  exact ⟨mapLike_mirrors _, mapLike_mirrors _, andThenLike_mirrors _,
    withDefaultLike_mirrors _, toMaybe_mirrors, by simp⟩

end Rule.Wrapped

/-! ## Sets and dictionaries -/

namespace Rule.Collection

/-- A twin of the empty collection is the empty collection. -/
theorem isEmptyCollection_twin {x x' : Expr} (h : x.Twin x') (lib : Library) (ctx : Context)
    (source : SourceText) (isFree : Bool) :
    isEmptyCollection lib (ctx.moved source isFree) x' = isEmptyCollection lib ctx x :=
  h.isReference ctx lib.path "empty"

/-- Both calls are replaced by what the result is. -/
theorem onEmpty_mirrors (index : Nat) (result : Library → Context → String)
    (shown : Library → String) : (onEmpty index result shown).Mirrors := by
  intro _ _ lib ctx source isFree e e' c c' h
  have harg := h.arg? index
  unfold onEmpty
  rw [h.displayCall]
  generalize c.arg? index = a, c'.arg? index = a' at harg ⊢
  cases harg with
  | none => exact .none
  | some harg =>
    dsimp only
    rw [isEmptyCollection_twin harg.twin]
    exact .ite (.some (h.replaceCall lib rfl _ _ _ _)) .none

theorem emptyStaysEmpty_mirrors (index : Nat) : (emptyStaysEmpty index).Mirrors :=
  onEmpty_mirrors index _ _

theorem onEmptyBool_mirrors (index : Nat) (value : Bool) : (onEmptyBool index value).Mirrors :=
  onEmpty_mirrors index _ _

theorem onEmptyText_mirrors (index : Nat) (text : String) : (onEmptyText index text).Mirrors :=
  onEmpty_mirrors index _ _

theorem partition_mirrors : partition.Mirrors := onEmpty_mirrors 1 _ _

/-- An empty list is recognized on both sides. -/
theorem fromList_mirrors : fromList.Mirrors := by
  intro _ _ lib ctx source isFree e e' c c' h
  have hl := h.arg? 0
  unfold fromList
  rw [h.displayCall]
  generalize c.arg? 0 = a, c'.arg? 0 = a' at hl ⊢
  cases hl with
  | none => exact .none
  | some hl =>
    dsimp only
    rw [hl.twin.isEmptyList]
    exact .ite (.some (h.replaceCall lib rfl _ _ _ _)) .none

/-- A single element is written behind another function, which replaces the call as a whole. -/
theorem setFromList_mirrors : setFromList.Mirrors := by
  intro _ _ lib ctx source isFree e e' c c' h
  have hl := h.list? 0
  have hempty := fromList_mirrors lib source isFree h
  unfold setFromList
  generalize (c.arg? 0).bind Expr.list? = xs, (c'.arg? 0).bind Expr.list? = xs' at hl ⊢
  cases hl with
  | none => exact hempty
  | some hxs =>
    cases hxs with
    | nil => exact hempty
    | cons _ hmore =>
      cases hmore with
      | nil => exact .some (h.replaceCall lib rfl _ _ _ _)
      | cons => exact hempty

theorem setMap_mirrors : setMap.Mirrors := by
  intro _ _ lib ctx source isFree e e' c c' h
  have hfunction := h.arg? 0
  unfold setMap
  generalize c.arg? 0 = a, c'.arg? 0 = a' at hfunction ⊢
  cases hfunction with
  | none => exact .none
  | some hfunction =>
    dsimp only
    rw [Context.isIdentity_moved, hfunction.twin.isIdentity]
    exact .ite (.some (h.keepArgOrIdentity lib rfl 1))
      (emptyStaysEmpty_mirrors 1 lib source isFree h)

/-- A test that always passes keeps the set, a test that never does leaves the empty one. -/
theorem setFilter_mirrors : setFilter.Mirrors := by
  intro _ _ lib ctx source isFree e e' c c' h
  have hpredicate := h.arg? 0
  unfold setFilter
  generalize c.arg? 0 = a, c'.arg? 0 = a' at hpredicate ⊢
  cases hpredicate with
  | none => exact .none
  | some hpredicate =>
    dsimp only
    rw [Context.isAlwaysBool_moved, hpredicate.twin.isAlwaysBool, hpredicate.twin.isAlwaysBool]
    exact .ite (.some (h.keepArgOrIdentity lib rfl 1))
      (.ite (.some (h.valueOrAlways lib rfl 1 _ _ _ _))
        (emptyStaysEmpty_mirrors 1 lib source isFree h))

/-- The set beside the empty one is kept on both sides. -/
theorem union_mirrors : union.Mirrors := by
  intro _ _ lib ctx source isFree e e' c c' h
  have hfirst := h.arg? 0
  have hsecond := h.arg? 1
  unfold union
  generalize c.arg? 0 = a, c'.arg? 0 = a', c.arg? 1 = b, c'.arg? 1 = b' at hfirst hsecond ⊢
  cases hfirst with
  | none => exact .none
  | some hfirst =>
    cases hsecond with
    | none => exact .none
    | some hsecond =>
      dsimp only
      rw [isEmptyCollection_twin hfirst.twin, isEmptyCollection_twin hsecond.twin]
      exact .ite (.some (h.keepArg lib rfl hsecond))
        (.ite (.some (h.keepArg lib rfl hfirst)) .none)

/-- Both calls are replaced by the empty set. -/
theorem intersect_mirrors : intersect.Mirrors := by
  intro _ _ lib ctx source isFree e e' c c' h
  have hfirst := h.arg? 0
  unfold intersect
  generalize c.arg? 0 = a, c'.arg? 0 = a' at hfirst ⊢
  cases hfirst with
  | none => exact .none
  | some hfirst =>
    dsimp only
    rw [isEmptyCollection_twin hfirst.twin]
    exact .ite (emptyStaysEmpty_mirrors 0 lib source isFree h)
      (emptyStaysEmpty_mirrors 1 lib source isFree h)

/-- The first set is kept if the second one is empty. -/
theorem diff_mirrors : diff.Mirrors := by
  intro _ _ lib ctx source isFree e e' c c' h
  have hfirst := h.arg? 0
  have hsecond := h.arg? 1
  unfold diff
  generalize c.arg? 0 = a, c'.arg? 0 = a', c.arg? 1 = b, c'.arg? 1 = b' at hfirst hsecond ⊢
  cases hfirst with
  | none => exact .none
  | some hfirst =>
    cases hsecond with
    | none => exact .none
    | some hsecond =>
      dsimp only
      rw [isEmptyCollection_twin hfirst.twin, isEmptyCollection_twin hsecond.twin]
      exact .ite (emptyStaysEmpty_mirrors 0 lib source isFree h)
        (.ite (.some (h.keepArg lib rfl hfirst)) .none)

/-- All functions of `Set` mirror their findings at twins. -/
theorem setFamily_mirrors : ∀ c ∈ setFamily.checks, CallCheck.Mirrors c.2 := by
  simp only [setFamily, List.forall_mem_cons]
  exact ⟨setMap_mirrors, setFilter_mirrors, onEmptyBool_mirrors 0 true,
    onEmptyBool_mirrors 1 false, setFromList_mirrors, onEmptyText_mirrors 0 "[]",
    onEmptyText_mirrors 0 "0", emptyStaysEmpty_mirrors 1, union_mirrors, intersect_mirrors,
    diff_mirrors, partition_mirrors, by simp⟩

/-- All functions of `Dict` mirror their findings at twins. -/
theorem dictFamily_mirrors : ∀ c ∈ dictFamily.checks, CallCheck.Mirrors c.2 := by
  simp only [dictFamily, List.forall_mem_cons]
  exact ⟨onEmptyBool_mirrors 0 true, fromList_mirrors, onEmptyText_mirrors 0 "[]",
    onEmptyText_mirrors 0 "[]", onEmptyText_mirrors 0 "[]", onEmptyText_mirrors 0 "0",
    onEmptyBool_mirrors 1 false, emptyStaysEmpty_mirrors 1, emptyStaysEmpty_mirrors 1,
    union_mirrors, emptyStaysEmpty_mirrors 1, partition_mirrors, by simp⟩

end Rule.Collection

/-! ## Effects -/

namespace Rule.Effect

/-- A twin of the effect that does nothing does nothing. -/
theorem isNone_twin {x x' : Expr} (h : x.Twin x') (lib : Library) (ctx : Context)
    (source : SourceText) (isFree : Bool) :
    isNone lib (ctx.moved source isFree) x' = isNone lib ctx x :=
  h.isReference ctx lib.path "none"

/-- An effect is kept when it is mapped with the identity; mapping the effect that does nothing
leaves that effect. -/
theorem map_mirrors : map.Mirrors := by
  intro _ _ lib ctx source isFree e e' c c' h
  have hfunction := h.arg? 0
  have heffect := h.arg? 1
  unfold map
  rw [h.displayCall]
  generalize c.arg? 0 = a, c'.arg? 0 = a', c.arg? 1 = b, c'.arg? 1 = b' at hfunction heffect ⊢
  cases hfunction with
  | none => exact .none
  | some hfunction =>
    dsimp only
    rw [Context.isIdentity_moved, hfunction.twin.isIdentity]
    refine .ite (.some (h.keepArgOrIdentity lib rfl 1)) ?_
    cases heffect with
    | none => exact .none
    | some heffect =>
      dsimp only
      rw [isNone_twin heffect.twin]
      exact .ite (.some (h.replaceCall lib rfl _ _ _ _)) .none

end Rule.Effect

end Terse
