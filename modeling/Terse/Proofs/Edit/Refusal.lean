import Mathlib.Data.List.Perm.Subperm
import Terse.Proofs.Edit.Splice

/-!
# When edits are refused

A list of edits is refused for the first edit that has no place by itself: it is inverted, or one
of its ends does not belong to the text. If all have places, it is refused when any two of them
conflict, wherever they stand in the list, and the error names two that do.
-/

namespace Terse

open SourceText

/-! ## Two edits that conflict -/

namespace ByteEdit

/-- The byte with this number is one that the edit replaces. -/
def Covers (e : ByteEdit) (k : Nat) : Prop := e.start ≤ k ∧ k < e.stop

/-- Two edits that cannot both be made. An edit starts and ends between characters, so edits that
share a byte share a character. -/
inductive Conflicts (a b : ByteEdit) : Prop where
  | share {k : Nat} (ha : a.Covers k) (hb : b.Covers k)
  | inside (ha : a.start = a.stop) (hstart : b.start < a.start) (hstop : a.start < b.stop)
  | around (hb : b.start = b.stop) (hstart : a.start < b.start) (hstop : b.start < a.stop)
  | samePoint (ha : a.start = a.stop) (hb : b.start = b.stop) (h : a.start = b.start)

/-- The edit as a stretch of bytes. -/
def span (e : ByteEdit) : Nat × Nat := (e.start, e.stop)

theorem conflicts_iff_not_apart {a b : ByteEdit} (ha : a.start ≤ a.stop) (hb : b.start ≤ b.stop) :
    a.Conflicts b ↔ ¬ Apart a.span b.span := by
  simp only [Apart, span, Prod.mk.injEq]
  constructor
  · rintro (⟨⟨h1, h2⟩, h3, h4⟩ | _ | _ | _) <;> omega
  · intro h
    by_cases hpoint : a.start = a.stop <;> by_cases hpoint' : b.start = b.stop
    · exact .samePoint hpoint hpoint' (by omega)
    · exact .inside hpoint (by omega) (by omega)
    · exact .around hpoint' (by omega) (by omega)
    · -- neither is empty, so both replace the byte where the later one starts
      exact .share (k := max a.start b.start) ⟨by omega, by omega⟩ ⟨by omega, by omega⟩

end ByteEdit

namespace SourceText

/-- Both edits have offsets, and conflict there. -/
def Conflict (s : SourceText) (a b : Edit) : Prop :=
  ∃ p q, s.byteEdit? a = some p ∧ s.byteEdit? b = some q ∧ p.Conflicts q

variable {s : SourceText}

/-- Edits with places stay apart by their bytes when they do so by their ranges. -/
theorem Admits.apart_toBytes_iff {a b : Edit} (ha : s.Admits a) (hb : s.Admits b) :
    Apart ((s.placeOf a).toBytes s.chars).span ((s.placeOf b).toBytes s.chars).span ↔
      Apart a.range.span b.range.span := by
  have hstart := index?_le_length ha.start_eq
  have hstart' := index?_le_length hb.start_eq
  rw [← ha.apart_iff hb]
  simp only [Apart, ByteEdit.span, PlacedEdit.span, PlacedEdit.toBytes, Prod.mk.injEq,
    byteLength_take_le_iff ha.stop_le_length hstart',
    byteLength_take_le_iff hb.stop_le_length hstart,
    byteLength_take_eq_iff hstart ha.stop_le_length, byteLength_take_eq_iff hstart hstart',
    byteLength_take_eq_iff ha.stop_le_length hb.stop_le_length]

theorem Admits.toBytes_le {e : Edit} (h : s.Admits e) :
    ((s.placeOf e).toBytes s.chars).start ≤ ((s.placeOf e).toBytes s.chars).stop :=
  (byteLength_take_le_iff (index?_le_length h.start_eq) h.stop_le_length).mpr h.place_le

/-- Edits with places conflict when their ranges do not stay apart. -/
theorem Admits.conflict_iff {a b : Edit} (ha : s.Admits a) (hb : s.Admits b) :
    s.Conflict a b ↔ ¬ Apart a.range.span b.range.span := by
  rw [← ha.apart_toBytes_iff hb, ← ByteEdit.conflicts_iff_not_apart ha.toBytes_le hb.toBytes_le,
    Conflict, byteEdit?_of_admits ha, byteEdit?_of_admits hb]
  simp

/-! ## Edits without a place -/

/-- The edit is not inverted, and both its ends have an offset. -/
structure Resolves (s : SourceText) (e : Edit) : Prop where
  le : e.range.start ≤ e.range.stop
  start : (s.offset? e.range.start).isSome
  stop : (s.offset? e.range.stop).isSome

/-- What is wrong with an edit by itself: it is looked at in this order. -/
inductive Fault (s : SourceText) (e : Edit) : EditError → Prop where
  | inverted (h : e.range.stop < e.range.start) : Fault s e (.inverted e.range)
  | start (hle : e.range.start ≤ e.range.stop) (h : s.offset? e.range.start = none) :
    Fault s e (.outOfBounds e.range.start)
  | stop (hle : e.range.start ≤ e.range.stop) (hstart : (s.offset? e.range.start).isSome)
    (h : s.offset? e.range.stop = none) : Fault s e (.outOfBounds e.range.stop)

theorem isSome_offset? (l : Location) : (s.offset? l).isSome = (s.index? l).isSome := by
  rw [offset?, Option.isSome_map]

theorem resolves_iff_admits {e : Edit} : s.Resolves e ↔ s.Admits e := by
  constructor
  · rintro ⟨hle, hstart, hstop⟩
    exact ⟨hle, isSome_offset? _ ▸ hstart, isSome_offset? _ ▸ hstop⟩
  · rintro ⟨hle, hstart, hstop⟩
    exact ⟨hle, isSome_offset? _ ▸ hstart, isSome_offset? _ ▸ hstop⟩

theorem indexFor_eq_error {l : Location} (h : s.offset? l = none) :
    s.indexFor l = .error (.outOfBounds l) := by
  have hindex : s.index? l = none := by simpa [offset?] using h
  rw [indexFor, hindex]

/-- An edit that has no place has a fault, and is refused for it. -/
theorem exists_fault {e : Edit} (h : ¬ s.Resolves e) :
    ∃ err, s.Fault e err ∧ s.place e = .error err := by
  unfold place
  by_cases hinv : e.range.stop < e.range.start
  · exact ⟨_, .inverted hinv, if_pos hinv⟩
  have hle := not_lt.mp hinv
  -- the start is looked up first, so where both ends are outside the text the fault is its own
  rw [if_neg hinv]
  cases hstart : s.offset? e.range.start with
  | none =>
    refine ⟨_, .start hle hstart, ?_⟩
    rw [indexFor_eq_error hstart]
    rfl
  | some i =>
    cases hstop : s.offset? e.range.stop with
    | none =>
      refine ⟨_, .stop hle (by simp [hstart]) hstop, ?_⟩
      rcases (offset?_eq_some_iff s e.range.start i).mp hstart with ⟨j, hj, -⟩
      rw [indexFor_eq_error hstop, indexFor_eq_ok_iff.mpr hj]
      rfl
    | some j => exact absurd ⟨hle, by simp [hstart], by simp [hstop]⟩ h

/-- The first edit without a place decides the error. -/
theorem exists_first_fault {es : List Edit} (h : ¬ ∀ e ∈ es, s.Resolves e) :
    ∃ before e after err, es = before ++ e :: after ∧ (∀ e' ∈ before, s.Resolves e') ∧
      s.Fault e err ∧ s.placeAll es = .error err := by
  induction es with
  | nil => simp at h
  | cons e es ih =>
    by_cases he : s.Resolves e
    · have hrest : ¬ ∀ e ∈ es, s.Resolves e := fun hes =>
        h (List.forall_mem_cons.mpr ⟨he, hes⟩)
      rcases ih hrest with ⟨before, e', after, err, rfl, hbefore, hfault, hplace⟩
      refine ⟨e :: before, e', after, err, rfl, List.forall_mem_cons.mpr ⟨he, hbefore⟩, hfault, ?_⟩
      rw [placeAll, place_eq_ok_iff.mpr ⟨resolves_iff_admits.mp he, rfl⟩, hplace]
      rfl
    · rcases exists_fault he with ⟨err, hfault, hplace⟩
      refine ⟨[], e, es, err, rfl, by simp, hfault, ?_⟩
      rw [placeAll, hplace]
      rfl

end SourceText

/-! ## Edits that overlap -/

namespace SourceText

variable {s : SourceText} {es : List Edit}

/-- Edits that have places but clash are refused with the first two neighbours that do. -/
theorem apply_eq_overlap_iff (hes : ∀ e ∈ es, s.Admits e) {r r' : Range} :
    s.apply es = .error (.overlap r r') ↔ ∃ p q,
      firstNeighbours PlacedEdit.clashes (s.sortedPlaces es) = some (p, q) ∧
        p.edit.range = r ∧ q.edit.range = r' := by
  rw [apply_of_admits hes]
  cases hclash : firstNeighbours PlacedEdit.clashes (s.sortedPlaces es) with
  | none => simp
  | some pair => simp [Prod.ext_iff]

/-- Neighbours among the sorted places are edits at two positions of the list. -/
theorem subperm_of_neighbours {p q : PlacedEdit} (h : [p, q] <:+: s.sortedPlaces es) :
    [p.edit, q.edit].Subperm es := by
  have hplaces : [p, q].Subperm (es.map s.placeOf) :=
    h.sublist.subperm.trans (List.mergeSort_perm _ _).subperm
  rcases hplaces with ⟨inOrder, hperm, hsub⟩
  have hedits := hsub.map PlacedEdit.edit
  have hsame : (es.map s.placeOf).map PlacedEdit.edit = es := by
    rw [List.map_map]
    exact List.map_id es
  rw [hsame] at hedits
  exact ⟨_, hperm.map PlacedEdit.edit, hedits⟩

theorem pairwise_not_conflict_iff (hes : ∀ e ∈ es, s.Admits e) :
    (es.Pairwise fun a b => ¬ s.Conflict a b) ↔
      es.Pairwise fun a b => Apart a.range.span b.range.span := by
  refine List.Pairwise.iff_of_mem fun {a b} ha hb => ?_
  rw [(hes a ha).conflict_iff (hes b hb), not_not]

/-- Edits can be applied when each has a place and no two conflict. -/
theorem exists_apply_iff :
    (∃ t, s.apply es = .ok t) ↔
      (∀ e ∈ es, s.Resolves e) ∧ es.Pairwise fun a b => ¬ s.Conflict a b := by
  simp only [resolves_iff_admits]
  constructor
  · rintro ⟨t, ht⟩
    rcases apply_eq_ok_iff.mp ht with ⟨hes, hclash, -⟩
    exact ⟨hes, (pairwise_not_conflict_iff hes).mpr ((no_clash_iff_apart hes).mp hclash)⟩
  · rintro ⟨hes, h⟩
    exact exists_apply_eq_ok hes ((pairwise_not_conflict_iff hes).mp h)

/-- Edits with places, two of which conflict, are refused with two that do. -/
theorem exists_overlap (hes : ∀ e ∈ es, s.Admits e)
    (h : ¬ es.Pairwise fun a b => ¬ s.Conflict a b) :
    ∃ a b, [a, b].Subperm es ∧ s.Conflict a b ∧
      s.apply es = .error (.overlap a.range b.range) := by
  cases hclash : firstNeighbours PlacedEdit.clashes (s.sortedPlaces es) with
  | none =>
    -- without a clash of neighbours any two stay apart
    exact absurd ((pairwise_not_conflict_iff hes).mpr ((no_clash_iff_apart hes).mp hclash)) h
  | some pair =>
    rcases pair with ⟨p, q⟩
    rcases firstNeighbours_eq_some hclash with ⟨hrelated, hneighbours⟩
    rcases mem_sortedPlaces.mp (hneighbours.subset (by simp : p ∈ [p, q])) with ⟨a, ha, rfl⟩
    rcases mem_sortedPlaces.mp (hneighbours.subset (by simp : q ∈ [_, q])) with ⟨b, hb, rfl⟩
    refine ⟨a, b, subperm_of_neighbours hneighbours, ((hes a ha).conflict_iff (hes b hb)).mpr ?_,
      (apply_eq_overlap_iff hes).mpr ⟨_, _, hclash, rfl, rfl⟩⟩
    -- in order and clashing: the first does not come before the second
    intro hapart
    have horder := (List.pairwise_pair.mp
      ((PlacedEdit.neighbour_test.sorted (es.map s.placeOf)).sublist hneighbours.sublist))
    have hbefore := before_of_in_order (hes b hb).place_le horder
      (((hes a ha).apart_iff (hes b hb)).mpr hapart)
    have hfalse := (PlacedEdit.clashes_eq_false_iff (hes a ha).place_le (hes b hb).place_le).mpr
      hbefore
    rw [hrelated] at hfalse
    cases hfalse

end SourceText

/-- Edits can be applied if and only if each of them has a place and no two of them conflict. If
some have no place, the first of these in the list is refused for its fault, whatever else
overlaps; and if all have places, two that conflict are named. -/
theorem applyEdits_outcome (text : String) (edits : List Edit) :
    let s := SourceText.ofString text
    ((∃ t, applyEdits text edits = .ok t) ↔
      (∀ e ∈ edits, s.Resolves e) ∧ edits.Pairwise fun a b => ¬ s.Conflict a b) ∧
    ((¬ ∀ e ∈ edits, s.Resolves e) → ∃ before e after err, edits = before ++ e :: after ∧
      (∀ e' ∈ before, s.Resolves e') ∧ s.Fault e err ∧ applyEdits text edits = .error err) ∧
    ((∀ e ∈ edits, s.Resolves e) → (¬ edits.Pairwise fun a b => ¬ s.Conflict a b) →
      ∃ a b, [a, b].Subperm edits ∧ s.Conflict a b ∧
        applyEdits text edits = .error (.overlap a.range b.range)) := by
  intro s
  refine ⟨?_, ?_, ?_⟩
  · rw [← exists_apply_iff]
    constructor
    · rintro ⟨t, ht⟩
      rcases map_ok_iff.mp ht with ⟨written, hwritten, -⟩
      exact ⟨written, hwritten⟩
    · rintro ⟨written, hwritten⟩
      exact ⟨written.text, map_ok_iff.mpr ⟨written, hwritten, rfl⟩⟩
  · intro h
    rcases exists_first_fault h with ⟨before, e, after, err, hsplit, hbefore, hfault, hplace⟩
    refine ⟨before, e, after, err, hsplit, hbefore, hfault, ?_⟩
    rw [applyEdits, SourceText.apply, hplace]
    rfl
  · intro hes h
    rcases exists_overlap (fun e he => resolves_iff_admits.mp (hes e he)) h with
      ⟨a, b, hpair, hconflict, happly⟩
    refine ⟨a, b, hpair, hconflict, ?_⟩
    rw [applyEdits, happly]
    rfl

/-- An edit that ends behind the text is refused before two earlier ones that overlap. -/
example : applyEdits "abc" [.remove ⟨⟨1, 1⟩, ⟨1, 3⟩⟩, .remove ⟨⟨1, 2⟩, ⟨1, 4⟩⟩,
    .remove ⟨⟨1, 1⟩, ⟨2, 1⟩⟩] = .error (.outOfBounds ⟨2, 1⟩) := by decide +kernel

end Terse
