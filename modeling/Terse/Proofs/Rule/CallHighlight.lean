import Terse.Proofs.Rule.Catalog

/-!
# What findings in calls point at

What the checks of the families find points at the name of the function. The one exception is a
batch of effects some of which do nothing: there the finding points at the first of those.
-/

namespace Terse

/-- Whatever the check finds points at the name of the function. -/
def CallCheck.PointsAtName (check : CallCheck) : Prop :=
  ∀ lib ctx call, Found (fun f => f.range = call.fnRange) (check lib ctx call)

@[simp, grind =] theorem Finding.range_fixing (rule : RuleCode) (message : String)
    (details : List String) (range : Range) (edits : List Edit) :
    (Finding.fixing rule message details range edits).range = range := rfl

namespace Library

variable (lib : Library) (ctx : Context) (call : Call) (message : String)

@[grind =] theorem range_finding (edits : List Edit) :
    (lib.finding call message edits).range = call.fnRange := rfl

/-- A call that is replaced is highlighted at the name of its function. -/
@[grind =] theorem range_replaceCall (text : String) (atomic : Bool) :
    (lib.replaceCall ctx call message text atomic).range = call.fnRange := rfl

/-- So is a call of which an argument is kept. -/
@[grind =] theorem range_keepArg (kept : Expr) :
    (lib.keepArg ctx call message kept).range = call.fnRange := rfl

@[grind =] theorem range_keepArgOrIdentity (index : Nat) :
    (lib.keepArgOrIdentity ctx call message index).range = call.fnRange := by
  unfold keepArgOrIdentity
  split <;> rfl

@[grind =] theorem range_valueOrAlways (index : Nat) (value : String) (atomic : Bool) :
    (lib.valueOrAlways ctx call message index value atomic).range = call.fnRange := by
  unfold valueOrAlways
  split <;> rfl

end Library

namespace Rule

/-! ## Lists, texts and wrapped values -/

/-- Findings in calls of the functions of `List` point at the name. -/
theorem Lists.family_pointsAtName : ∀ c ∈ family.checks, CallCheck.PointsAtName c.2 := by
  intro c hc lib ctx call f hf
  simp only [family, all, any, List.mem_cons, List.not_mem_nil, or_false] at hc
  rcases hc with rfl | rfl | rfl | rfl | rfl | rfl | rfl | rfl | rfl | rfl | rfl | rfl | rfl | rfl |
    rfl | rfl | rfl | rfl | rfl | rfl | rfl | rfl | rfl | rfl | rfl | rfl | rfl <;>
    dsimp only at hf <;>
    grind [map, filter, filterMap, concat, concatMap, indexedMap, isEmpty, quantifier, range,
      length, replicate, reverse, fold, partition, head, tail, extremum, member, aggregate, take,
      drop, append, singleton, concatMany, emptyStaysEmpty, replaceOnEmpty, nothingOnEmpty,
      Option.map_eq_some_iff]

/-- So do those in calls of the functions of `String`. -/
theorem Strings.family_pointsAtName : ∀ c ∈ family.checks, CallCheck.PointsAtName c.2 := by
  intro c hc lib ctx call f hf
  simp only [family, List.mem_cons, List.not_mem_nil, or_false] at hc
  rcases hc with rfl | rfl | rfl | rfl | rfl | rfl | rfl | rfl | rfl | rfl <;> dsimp only at hf <;>
    grind [isEmpty, concat, join, length, replicate, split, reverse, fromList, append,
      onEmptyString, Option.map_eq_some_iff]

theorem Wrapped.maybeFamily_pointsAtName :
    ∀ c ∈ maybeFamily.checks, CallCheck.PointsAtName c.2 := by
  intro c hc lib ctx call f hf
  simp only [maybeFamily, List.mem_cons, List.not_mem_nil, or_false] at hc
  rcases hc with rfl | rfl | rfl <;> dsimp only at hf <;>
    grind [mapLike, andThenLike, withDefaultLike, passThrough, Option.map_eq_some_iff]

/-- Those in calls of the functions of `Result` do, as with `Maybe`. -/
theorem Wrapped.resultFamily_pointsAtName :
    ∀ c ∈ resultFamily.checks, CallCheck.PointsAtName c.2 := by
  intro c hc lib ctx call f hf
  simp only [resultFamily, List.mem_cons, List.not_mem_nil, or_false] at hc
  rcases hc with rfl | rfl | rfl | rfl | rfl <;> dsimp only at hf <;>
    grind [mapLike, andThenLike, withDefaultLike, toMaybe, passThrough, Option.map_eq_some_iff]

/-! ## Collections -/

/-- A call on the empty collection is reported at its name. -/
theorem Collection.onEmpty_pointsAtName (index : Nat) (result : Library → Context → String)
    (shown : Library → String) : CallCheck.PointsAtName (onEmpty index result shown) := by
  intro lib ctx call f hf
  grind [onEmpty]

/-- What stays empty is found on the way to other findings as well. -/
@[grind →] theorem Collection.range_of_emptyStaysEmpty {index : Nat} {lib : Library}
    {ctx : Context} {call : Call} {f : Finding} (h : emptyStaysEmpty index lib ctx call = some f) :
    f.range = call.fnRange :=
  onEmpty_pointsAtName index _ _ lib ctx call f h

/-- Findings in calls of the functions of `Set` point at the name. -/
theorem Collection.setFamily_pointsAtName :
    ∀ c ∈ setFamily.checks, CallCheck.PointsAtName c.2 := by
  intro c hc lib ctx call f hf
  simp only [setFamily, onEmptyBool, onEmptyText, partition, List.mem_cons, List.not_mem_nil,
    or_false] at hc
  rcases hc with rfl | rfl | rfl | rfl | rfl | rfl | rfl | rfl | rfl | rfl | rfl | rfl <;>
    dsimp only at hf <;>
    grind [onEmpty, setMap, setFilter, setFromList, fromList, union, intersect, diff]

theorem Collection.dictFamily_pointsAtName :
    ∀ c ∈ dictFamily.checks, CallCheck.PointsAtName c.2 := by
  intro c hc lib ctx call f hf
  simp only [dictFamily, onEmptyBool, onEmptyText, partition, List.mem_cons, List.not_mem_nil,
    or_false] at hc
  rcases hc with rfl | rfl | rfl | rfl | rfl | rfl | rfl | rfl | rfl | rfl | rfl | rfl <;>
    dsimp only at hf <;>
    grind [onEmpty, fromList, union]

/-! ## Effects -/

namespace Effect

variable {place : Location → Prop}

theorem map_pointsAtName : CallCheck.PointsAtName map := by
  intro lib ctx call f hf
  grind [map]

/-- The finding points at an element of a known list that the call is made with, and its fix
changes something in that list. -/
inductive PointsAtElement (call : Call) (f : Finding) : Prop where
  | of {l first : Expr} {elements : List Expr} (hl : call.arg? 0 = some l)
    (hlist : l.list? = some elements) (hfirst : first ∈ elements) (hrange : f.range = first.range)
    (hedit : ∃ r ∈ f.editRanges, l.range.start < r.start ∧ r.start < r.stop ∧
      r.stop < l.range.stop) : PointsAtElement call f

/-- Effects that do nothing are taken out of the list together with the commas beside them. -/
theorem dropNone_points (lib : Library) (ctx : Context) {call : Call} (h : call.Fills place)
    {elements : List Expr} (helements : (call.arg? 0).bind Expr.list? = some elements) :
    Found (fun f => f.range = call.fnRange ∨ f.rule = lib.code ∧ PointsAtElement call f)
      (dropNone lib ctx call elements) := by
  rcases Option.bind_eq_some_iff.mp helements with ⟨l, hl, hlist⟩
  have hlies := h.arg_lies (Call.mem_args_of_arg? hl)
  rcases Expr.list?_between hlies.1 hlist with ⟨start, stop, hstart, hline, hstop⟩
  unfold dropNone
  dsimp only
  split
  · exact found_none
  · rename_i first hfirst
    have hmem := List.mem_of_find?_eq_some hfirst
    have hnone := List.find?_some hfirst
    refine found_ite (fun _ => found_some.mpr (.inl rfl)) fun hall => ?_
    refine found_some.mpr (.inr ⟨rfl, .of hl hlist hmem rfl ?_⟩)
    rw [List.all_eq_true] at hall
    push Not at hall
    rcases hall with ⟨other, hother, hkept⟩
    have hedits := removeItems_between (hline.between.map (fun e => (e.range, isNone lib ctx e))
      (fun _ _ => rfl) fun _ he => he.proper)
    have hne : removeItems (elements.map fun e => (e.range, isNone lib ctx e)) ≠ [] := by
      apply removeItemsFrom_ne_nil
      · exact .inr ⟨_, List.mem_map_of_mem hmem, hnone⟩
      · exact .inr ⟨_, List.mem_map_of_mem hother, by simpa using hkept⟩
    rcases List.exists_mem_of_ne_nil _ hne with ⟨edit, hedit⟩
    have hle : ∀ e : Edit, e.range.Proper place → e.range.start ≤ e.range.stop := fun _ h => h.le
    refine ⟨edit.range, List.mem_map_of_mem hedit, ?_, (hedits.ok_of_mem hedit).lt, ?_⟩
    · exact hstart.trans_le (hedits.start_le hle hedit)
    · exact (hedits.le_stop hle hedit).trans_lt hstop

/-- A batch is reported at its name, or at the first effect that does nothing. -/
theorem batch_points (lib : Library) (ctx : Context) {call : Call} (h : call.Fills place) :
    Found (fun f => f.range = call.fnRange ∨ f.rule = lib.code ∧ PointsAtElement call f)
      (batch lib ctx call) := by
  unfold batch
  split
  · exact found_none
  · exact found_some.mpr (.inl rfl)
  · exact found_some.mpr (.inl rfl)
  · rename_i helements
    exact dropNone_points lib ctx h helements

end Effect

end Rule

end Terse
