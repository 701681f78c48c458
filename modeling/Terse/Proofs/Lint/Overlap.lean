import Terse.Proofs.Edit.Refusal
import Terse.Proofs.Lint.Analysis

/-!
# The tests for overlap agree

Edits are tested for overlap three times: by their locations when a finding is reported, by their
offsets when they are written, and against what earlier findings have changed. The first two sort
and look at neighbours, the third one looks at pairs. On edits that have places all three agree,
and the first two name the same ranges.
-/

namespace Terse

namespace SourceText

variable {s : SourceText}

section

variable {a b : Edit} (ha : s.Admits a) (hb : s.Admits b)
include ha hb

theorem Admits.before_iff :
    Before (s.placeOf a).span (s.placeOf b).span ↔ Before a.range.span b.range.span := by
  simp only [Before, PlacedEdit.span, Range.span, Prod.mk.injEq,
    le_iff_index_le ha.stop_eq hb.start_eq, eq_iff_index_eq ha.start_eq ha.stop_eq,
    eq_iff_index_eq ha.start_eq hb.start_eq, eq_iff_index_eq ha.stop_eq hb.stop_eq]

theorem Admits.inOrder_iff :
    InOrder (s.placeOf a).span (s.placeOf b).span ↔ InOrder a.range.span b.range.span := by
  simp only [InOrder, PlacedEdit.span, Range.span, lt_iff_index_lt ha.start_eq hb.start_eq,
    eq_iff_index_eq ha.start_eq hb.start_eq, le_iff_index_le ha.stop_eq hb.stop_eq]

/-- Places clash when the ranges do. -/
theorem Admits.clashes_eq :
    a.range.clashes b.range = (s.placeOf a).clashes (s.placeOf b) := by
  have hranges := Range.clashes_eq_false_iff ha.le hb.le
  have hplaces := PlacedEdit.clashes_eq_false_iff ha.place_le hb.place_le
  rw [← ha.before_iff hb, ← hplaces] at hranges
  rw [Bool.eq_iff_iff, ← not_iff_not]
  simpa using hranges

end

variable {es : List Edit} (hes : ∀ e ∈ es, s.Admits e)
include hes

/-- Sorting by places is sorting by ranges. -/
theorem map_range_sortedPlaces :
    (s.sortedPlaces es).map (fun p => p.edit.range) =
      (es.map Edit.range).mergeSort Range.startsFirst := by
  have hmap : es.map Edit.range = (es.map s.placeOf).map fun p => p.edit.range := by
    rw [List.map_map]
    rfl
  rw [hmap, sortedPlaces]
  apply List.map_mergeSort
  intro p hp q hq
  rcases List.mem_map.mp hp with ⟨a, ha, rfl⟩
  rcases List.mem_map.mp hq with ⟨b, hb, rfl⟩
  rw [Bool.eq_iff_iff, PlacedEdit.startsFirst_iff, Range.startsFirst_iff]
  exact (hes a ha).inOrder_iff (hes b hb)

/-- The first clash of sorted ranges is the first clash of sorted places. -/
theorem firstClash_eq :
    Range.firstClash (es.map Edit.range) =
      (firstNeighbours PlacedEdit.clashes (s.sortedPlaces es)).map
        (Prod.map (fun p => p.edit.range) fun p => p.edit.range) := by
  rw [Range.firstClash, ← map_range_sortedPlaces hes]
  apply firstNeighbours_map
  intro p hp q hq
  rcases mem_sortedPlaces.mp hp with ⟨a, ha, rfl⟩
  rcases mem_sortedPlaces.mp hq with ⟨b, hb, rfl⟩
  exact (hes a ha).clashes_eq (hes b hb)

end SourceText

theorem Range.touches_iff_not_apart {a b : Range} (ha : a.start ≤ a.stop)
    (hb : b.start ≤ b.stop) : a.touches b = true ↔ ¬ Apart a.span b.span := by
  rw [← touches_eq_false_iff ha hb, Bool.not_eq_false]

/-- Ranges have a clash when two of them, at different positions, touch. -/
theorem Range.isSome_firstClash_iff {rs : List Range} (h : ∀ r ∈ rs, r.start ≤ r.stop) :
    (firstClash rs).isSome ↔ ∃ (i j : Nat) (hi : i < rs.length) (hj : j < rs.length),
      i ≠ j ∧ rs[i].touches rs[j] = true := by
  have htouches : ∀ (i j : Nat) (hi : i < rs.length) (hj : j < rs.length),
      rs[i].touches rs[j] = true ↔ ¬ Apart rs[i].span rs[j].span := fun i j hi hj =>
    touches_iff_not_apart (h _ (List.getElem_mem hi)) (h _ (List.getElem_mem hj))
  rw [Option.isSome_iff_ne_none, ne_eq, firstClash_eq_none_iff h, List.pairwise_iff_getElem]
  push Not
  constructor
  · rintro ⟨i, j, hi, hj, hlt, hapart⟩
    exact ⟨i, j, hi, hj, hlt.ne, (htouches i j hi hj).mpr hapart⟩
  · rintro ⟨i, j, hi, hj, hne, htouch⟩
    have hapart := (htouches i j hi hj).mp htouch
    -- the order of the two in the list does not matter
    rcases Nat.lt_or_gt_of_ne hne with hlt | hlt
    · exact ⟨i, j, hi, hj, hlt, hapart⟩
    · exact ⟨j, i, hj, hi, hlt, fun h => hapart (apart_symm h)⟩

/-- For edits that have places in a text, the test of a finding names a pair of ranges if and only
if applying the edits names that pair, and there is such a pair if and only if two of the edits
touch, which would make the analysis pass one of them over. -/
theorem overlap_tests_agree {text : String} {f : Finding}
    (h : ∀ e ∈ f.edits, (SourceText.ofString text).Resolves e) :
    (∀ r r', f.clash? = some (r, r') ↔
      applyEdits text f.edits = .error (.overlap r r')) ∧
    (f.clash?.isSome ↔ ∃ (i j : Nat) (hi : i < f.edits.length) (hj : j < f.edits.length),
      i ≠ j ∧ f.edits[i].range.touches f.edits[j].range = true) := by
  have hes : ∀ e ∈ f.edits, (SourceText.ofString text).Admits e := fun e he =>
    SourceText.resolves_iff_admits.mp (h e he)
  constructor
  · intro r r'
    have happly : applyEdits text f.edits = .error (.overlap r r') ↔
        (SourceText.ofString text).apply f.edits = .error (.overlap r r') := by
      unfold applyEdits
      cases (SourceText.ofString text).apply f.edits <;> simp [Except.map]
    rw [happly, SourceText.apply_eq_overlap_iff hes, Finding.clash?, Finding.editRanges,
      SourceText.firstClash_eq hes]
    simp [Prod.ext_iff]
  · have hle : ∀ r ∈ f.editRanges, r.start ≤ r.stop := by
      intro r hr
      rcases List.mem_map.mp hr with ⟨e, he, rfl⟩
      exact (h e he).le
    rw [Finding.clash?, Range.isSome_firstClash_iff hle]
    simp [Finding.editRanges]

/-- An insertion inside another edit, which stand neither together nor in order in the list. -/
theorem overlap_tests_agree_insertion_inside :
    let f : Finding := .fixing .booleanOperators "overlap" [] ⟨⟨1, 1⟩, ⟨2, 2⟩⟩
      [.insert ⟨1, 3⟩ "(", .remove ⟨⟨2, 1⟩, ⟨2, 2⟩⟩, .replace ⟨⟨1, 2⟩, ⟨1, 4⟩⟩ "-"]
    (∀ e ∈ f.edits, (SourceText.ofString "abc\nd").Resolves e) ∧
      f.clash? = some (⟨⟨1, 2⟩, ⟨1, 4⟩⟩, ⟨⟨1, 3⟩, ⟨1, 3⟩⟩) ∧
      applyEdits "abc\nd" f.edits =
        .error (.overlap ⟨⟨1, 2⟩, ⟨1, 4⟩⟩ ⟨⟨1, 3⟩, ⟨1, 3⟩⟩) ∧
      ∃ (i j : Nat) (hi : i < f.edits.length) (hj : j < f.edits.length),
        i ≠ j ∧ f.edits[i].range.touches f.edits[j].range = true := by
  intro f
  have hplaces : ∀ e ∈ f.edits, (SourceText.ofString "abc\nd").Resolves e := by
    change ∀ e ∈ [_, _, _], _
    simp only [List.forall_mem_cons, List.not_mem_nil, false_implies, implies_true, and_true]
    exact ⟨⟨by decide, by decide, by decide⟩, ⟨by decide, by decide, by decide⟩,
      ⟨by decide, by decide, by decide⟩⟩
  have happly : applyEdits "abc\nd" f.edits =
      .error (.overlap ⟨⟨1, 2⟩, ⟨1, 4⟩⟩ ⟨⟨1, 3⟩, ⟨1, 3⟩⟩) := by
    have hplaced : (SourceText.ofString "abc\nd").placeAll f.edits =
        .ok [⟨2, 2, _⟩, ⟨4, 5, _⟩, ⟨1, 3, _⟩] := rfl
    rw [applyEdits, SourceText.apply, hplaced]
    simp [bind, Except.bind, Except.map, List.mergeSort, List.MergeSort.Internal.splitInTwo,
      PlacedEdit.startsFirst, firstNeighbours, PlacedEdit.clashes, Edit.range, Range.point]
  have hclash := ((overlap_tests_agree hplaces).1 _ _).mpr happly
  exact ⟨hplaces, hclash, happly, (overlap_tests_agree hplaces).2.mp (by rw [hclash]; rfl)⟩

end Terse
