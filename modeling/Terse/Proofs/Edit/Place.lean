import Mathlib.Tactic.Order
import Terse.Edit.Apply
import Terse.Proofs.Edit.Apart
import Terse.Proofs.Outcome
import Terse.Proofs.Text.Position

/-!
# The places of edits

An edit has a place in a text when it is not inverted and both its ends belong to the text. A list
of edits can be applied exactly when every edit has a place and any two of them stay apart.
-/

namespace Terse

/-! ## Ranges -/

namespace Range

/-- A range as a stretch of locations. -/
def span (r : Range) : Location × Location := (r.start, r.stop)

theorem startsFirst_iff (a b : Range) : a.startsFirst b = true ↔ InOrder a.span b.span := by
  simp [startsFirst, InOrder, span]

/-- Two ranges in order do not clash when the first is wholly before the second. -/
theorem clashes_eq_false_iff {a b : Range} (ha : a.start ≤ a.stop) (hb : b.start ≤ b.stop) :
    a.clashes b = false ↔ Before a.span b.span := by
  simp only [clashes, isEmpty, Before, span, Bool.or_eq_false_iff, Bool.and_eq_false_iff,
    decide_eq_false_iff_not, beq_eq_false_iff_ne, Prod.mk.injEq, not_lt, not_and]
  constructor
  · rintro ⟨h, h'⟩
    -- one of the two is not empty, or they do not start together
    refine ⟨h, ?_⟩
    intro _ _ _
    rcases h' with (h' | h') | h' <;> order
  · rintro ⟨h, h'⟩
    refine ⟨h, ?_⟩
    by_contra hcon
    push Not at hcon
    rcases hcon with ⟨⟨h1, h2⟩, h3⟩
    exact h' (by order) h3 (by order)

/-- Ranges are sorted by where they start, and neighbours clash unless one is before the other. -/
theorem neighbour_test : NeighbourTest span startsFirst clashes where
  le_iff := startsFirst_iff
  clash_iff _ _ := clashes_eq_false_iff

/-- Ranges that are not inverted have no clash when any two of them stay apart. -/
theorem firstClash_eq_none_iff {rs : List Range} (h : ∀ r ∈ rs, r.start ≤ r.stop) :
    firstClash rs = none ↔ rs.Pairwise fun a b => Apart a.span b.span :=
  neighbour_test.eq_none_iff h

end Range

/-! ## Placed edits -/

namespace PlacedEdit

/-- A placed edit as a stretch of indices. -/
def span (p : PlacedEdit) : Nat × Nat := (p.start, p.stop)

theorem startsFirst_iff (a b : PlacedEdit) : a.startsFirst b = true ↔ InOrder a.span b.span := by
  simp [startsFirst, InOrder, span]

theorem clashes_eq_false_iff {a b : PlacedEdit} (_ : a.start ≤ a.stop) (hb : b.start ≤ b.stop) :
    a.clashes b = false ↔ Before a.span b.span := by
  simp only [clashes, Before, span, Bool.or_eq_false_iff, Bool.and_eq_false_iff,
    decide_eq_false_iff_not, beq_eq_false_iff_ne, Prod.mk.injEq, not_lt, not_and]
  omega

theorem neighbour_test : NeighbourTest span startsFirst clashes where
  le_iff := startsFirst_iff
  clash_iff _ _ := clashes_eq_false_iff

end PlacedEdit

namespace SourceText

variable {s : SourceText}

/-- The place of an edit whose ends belong to the text. -/
def placeOf (s : SourceText) (e : Edit) : PlacedEdit :=
  ⟨(s.index? e.range.start).getD 0, (s.index? e.range.stop).getD 0, e⟩

/-- An edit has a place: it is not inverted, and both its ends belong to the text. -/
structure Admits (s : SourceText) (e : Edit) : Prop where
  le : e.range.start ≤ e.range.stop
  start : (s.index? e.range.start).isSome
  stop : (s.index? e.range.stop).isSome

namespace Admits

variable {e e' : Edit} (h : s.Admits e) (h' : s.Admits e')
include h

theorem start_eq : s.index? e.range.start = some (s.placeOf e).start := by
  rcases Option.isSome_iff_exists.mp h.start with ⟨i, hi⟩
  simp [placeOf, hi]

theorem stop_eq : s.index? e.range.stop = some (s.placeOf e).stop := by
  rcases Option.isSome_iff_exists.mp h.stop with ⟨i, hi⟩
  simp [placeOf, hi]

theorem place_le : (s.placeOf e).start ≤ (s.placeOf e).stop :=
  (le_iff_index_le h.start_eq h.stop_eq).mp h.le

theorem stop_le_length : (s.placeOf e).stop ≤ s.chars.length := index?_le_length h.stop_eq

include h' in
/-- Edits stay apart by their indices when they do so by their ranges. -/
theorem apart_iff :
    Apart (s.placeOf e).span (s.placeOf e').span ↔ Apart e.range.span e'.range.span := by
  simp only [Apart, PlacedEdit.span, Range.span, Prod.mk.injEq,
    le_iff_index_le h.stop_eq h'.start_eq, le_iff_index_le h'.stop_eq h.start_eq,
    eq_iff_index_eq h.start_eq h.stop_eq, eq_iff_index_eq h.start_eq h'.start_eq,
    eq_iff_index_eq h.stop_eq h'.stop_eq]

end Admits

/-! ## Finding places -/

/-- A location is found when it is a place of the text. -/
theorem indexFor_eq_ok_iff {l : Location} {i : Nat} :
    s.indexFor l = .ok i ↔ s.index? l = some i := by
  unfold indexFor
  cases s.index? l <;> simp

/-- An edit is placed when it has a place. -/
theorem place_eq_ok_iff {e : Edit} {p : PlacedEdit} :
    s.place e = .ok p ↔ s.Admits e ∧ p = s.placeOf e := by
  unfold place
  by_cases hinv : e.range.stop < e.range.start
  · rw [if_pos hinv]
    constructor
    · intro h; cases h
    · rintro ⟨h, -⟩
      exact absurd h.le (not_le.mpr hinv)
  · rw [if_neg hinv]
    simp only [bind_ok_iff, pure_ok_iff, indexFor_eq_ok_iff]
    constructor
    · rintro ⟨i, hi, j, hj, rfl⟩
      exact ⟨⟨not_lt.mp hinv, by simp [hi], by simp [hj]⟩, by simp [placeOf, hi, hj]⟩
    · rintro ⟨h, rfl⟩
      exact ⟨_, h.start_eq, _, h.stop_eq, rfl⟩

/-- Edits are placed when each of them has a place. -/
theorem placeAll_eq_ok_iff {es : List Edit} {ps : List PlacedEdit} :
    s.placeAll es = .ok ps ↔ (∀ e ∈ es, s.Admits e) ∧ ps = es.map s.placeOf := by
  induction es generalizing ps with
  | nil =>
    simp only [placeAll, List.not_mem_nil, false_implies, implies_true, true_and, List.map_nil]
    constructor
    · intro h; cases h; rfl
    · rintro rfl; rfl
  | cons e es ih =>
    simp only [placeAll, bind_ok_iff, pure_ok_iff, place_eq_ok_iff, ih, List.forall_mem_cons,
      List.map_cons]
    constructor
    · rintro ⟨_, ⟨he, rfl⟩, _, ⟨hes, rfl⟩, rfl⟩
      exact ⟨⟨he, hes⟩, rfl⟩
    · rintro ⟨⟨he, hes⟩, rfl⟩
      exact ⟨_, ⟨he, rfl⟩, _, ⟨hes, rfl⟩, rfl⟩

/-- The placed edits in the order of their places. -/
def sortedPlaces (s : SourceText) (es : List Edit) : List PlacedEdit :=
  (es.map s.placeOf).mergeSort PlacedEdit.startsFirst

/-- Sorting neither adds edits nor loses any. -/
theorem mem_sortedPlaces {es : List Edit} {p : PlacedEdit} :
    p ∈ s.sortedPlaces es ↔ ∃ e ∈ es, s.placeOf e = p := by
  rw [sortedPlaces, List.mem_mergeSort, List.mem_map]

/-- Edits that have places are refused with the first two neighbours that clash, if there are any,
and are written otherwise. -/
theorem apply_of_admits {es : List Edit} (hes : ∀ e ∈ es, s.Admits e) :
    s.apply es = match firstNeighbours PlacedEdit.clashes (s.sortedPlaces es) with
      | some (a, b) => .error (.overlap a.edit.range b.edit.range)
      | none => .ok ⟨(s.sortedPlaces es).foldr PlacedEdit.write s.chars⟩ := by
  rw [apply, placeAll_eq_ok_iff.mpr ⟨hes, rfl⟩]
  rfl

/-- Edits whose places are in order are tested and written in the order in which they are given. -/
theorem apply_of_sorted {es : List Edit} {places : List PlacedEdit}
    (hplaces : s.placeAll es = .ok places)
    (hsorted : places.Pairwise fun a b => PlacedEdit.startsFirst a b = true) :
    s.apply es = match firstNeighbours PlacedEdit.clashes places with
      | some (a, b) => .error (.overlap a.edit.range b.edit.range)
      | none => .ok ⟨places.foldr PlacedEdit.write s.chars⟩ := by
  rcases placeAll_eq_ok_iff.mp hplaces with ⟨hes, rfl⟩
  rw [apply_of_admits hes, sortedPlaces, List.mergeSort_of_pairwise hsorted]

/-- Edits can be applied when each has a place and no neighbours among the places clash; they are
then written from the last to the first. -/
theorem apply_eq_ok_iff {es : List Edit} {t : SourceText} :
    s.apply es = .ok t ↔ (∀ e ∈ es, s.Admits e) ∧
      firstNeighbours PlacedEdit.clashes (s.sortedPlaces es) = none ∧
      t = ⟨(s.sortedPlaces es).foldr PlacedEdit.write s.chars⟩ := by
  constructor
  · intro h
    rcases bind_ok_iff.mp h with ⟨_, hplaces, -⟩
    have hes := (placeAll_eq_ok_iff.mp hplaces).1
    rw [apply_of_admits hes] at h
    cases hclash : firstNeighbours PlacedEdit.clashes (s.sortedPlaces es) with
    | some pair => rw [hclash] at h; cases h
    | none =>
      rw [hclash] at h
      cases h
      exact ⟨hes, rfl, rfl⟩
  · rintro ⟨hes, hclash, rfl⟩
    rw [apply_of_admits hes, hclash]

/-- The neighbour test of placed edits says that any two edits stay apart. -/
theorem no_clash_iff_apart {es : List Edit} (hes : ∀ e ∈ es, s.Admits e) :
    firstNeighbours PlacedEdit.clashes (s.sortedPlaces es) = none ↔
      es.Pairwise fun a b => Apart a.range.span b.range.span := by
  have hle : ∀ p ∈ es.map s.placeOf, p.span.1 ≤ p.span.2 := by
    intro p hp
    rcases List.mem_map.mp hp with ⟨e, he, rfl⟩
    exact (hes e he).place_le
  rw [sortedPlaces, PlacedEdit.neighbour_test.eq_none_iff hle, List.pairwise_map]
  constructor
  · exact List.Pairwise.imp_of_mem fun ha hb => ((hes _ ha).apart_iff (hes _ hb)).mp
  · exact List.Pairwise.imp_of_mem fun ha hb => ((hes _ ha).apart_iff (hes _ hb)).mpr

/-- Edits that have places and stay apart can be applied. -/
theorem exists_apply_eq_ok {es : List Edit} (hes : ∀ e ∈ es, s.Admits e)
    (h : es.Pairwise fun a b => Apart a.range.span b.range.span) : ∃ t, s.apply es = .ok t :=
  ⟨_, apply_eq_ok_iff.mpr ⟨hes, (no_clash_iff_apart hes).mpr h, rfl⟩⟩

end SourceText

end Terse
