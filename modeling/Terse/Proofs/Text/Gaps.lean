import Mathlib.Tactic.Order
import Terse.Proofs.Token.Ahead

/-!
# Texts and what stands between them

A stretch of a text in which things stand in a line is made of the texts of the things and of the
gaps between them, and nothing else. What an edit of a sequence leaves is told by the same pieces:
texts, each with the gap behind it, put together without the gap behind the last one.
-/

namespace Terse

namespace SourceText

/-! ## Stretches of a text -/

/-- The place behind the last character. -/
def finish (s : SourceText) : Location := Location.origin.afterAll s.chars

/-- The text before a place. -/
def before (s : SourceText) (l : Location) : String := s.extract ⟨Location.origin, l⟩

/-- The text from a place on. -/
def behind (s : SourceText) (l : Location) : String := s.extract ⟨l, s.finish⟩

variable {s : SourceText} {a b c : Location}

@[simp] theorem text_ofString (text : String) : (ofString text).text = text := String.ofList_toList

theorem index?_origin (s : SourceText) : s.index? Location.origin = some 0 :=
  index?_afterAll (List.nil_append s.chars).symm

/-- All characters stand before the end of the text. -/
theorem index?_finish (s : SourceText) : s.index? s.finish = some s.chars.length :=
  index?_afterAll (List.append_nil s.chars).symm

theorem HasPlace.exists_index (h : s.HasPlace a) : ∃ i, s.index? a = some i :=
  Option.isSome_iff_exists.mp h

theorem hasPlace_of_index {i : Nat} (h : s.index? a = some i) : s.HasPlace a := by
  rw [HasPlace, h]
  rfl

/-- The start of a text is a place of it. -/
theorem hasPlace_origin (s : SourceText) : s.HasPlace Location.origin :=
  hasPlace_of_index s.index?_origin

/-- The end of a text is a place of it. -/
theorem hasPlace_finish (s : SourceText) : s.HasPlace s.finish :=
  hasPlace_of_index s.index?_finish

theorem HasPlace.origin_le (h : s.HasPlace a) : Location.origin ≤ a := by
  obtain ⟨i, hi⟩ := h.exists_index
  exact (le_iff_index_le s.index?_origin hi).mpr (Nat.zero_le i)

/-- No place of a text is behind its end. -/
theorem HasPlace.le_finish (h : s.HasPlace a) : a ≤ s.finish := by
  obtain ⟨i, hi⟩ := h.exists_index
  exact (le_iff_index_le hi s.index?_finish).mpr (index?_le_length hi)

/-- The text of a range holds the characters between the indices of its ends. -/
theorem toList_extract {i j : Nat} (ha : s.index? a = some i) (hb : s.index? b = some j)
    (hab : a ≤ b) : (s.extract ⟨a, b⟩).toList = (s.chars.take j).drop i := by
  have hij : i ≤ j := (le_iff_index_le ha hb).mp hab
  simp [extract, slice?, ha, hb, hij]

/-- Nothing stands between a place and itself. -/
theorem extract_point (ha : s.HasPlace a) : s.extract ⟨a, a⟩ = "" := by
  obtain ⟨i, hi⟩ := ha.exists_index
  have hlist := toList_extract hi hi le_rfl
  rw [← String.toList_inj, hlist, List.drop_eq_nil_iff.mpr (by simp)]
  rfl

/-- Two stretches of which one ends where the other starts are one stretch. -/
theorem extract_append (ha : s.HasPlace a) (hb : s.HasPlace b) (hc : s.HasPlace c) (hab : a ≤ b)
    (hbc : b ≤ c) : s.extract ⟨a, b⟩ ++ s.extract ⟨b, c⟩ = s.extract ⟨a, c⟩ := by
  obtain ⟨i, hi⟩ := ha.exists_index
  obtain ⟨j, hj⟩ := hb.exists_index
  obtain ⟨k, hk⟩ := hc.exists_index
  have hij : i ≤ j := (le_iff_index_le hi hj).mp hab
  have hjk : j ≤ k := (le_iff_index_le hj hk).mp hbc
  have hlen : j ≤ s.chars.length := index?_le_length hj
  have hcut : (s.chars.take k).drop i = (s.chars.take j).drop i ++ (s.chars.take k).drop j := by
    conv_lhs => rw [take_eq_append s.chars hjk]
    exact List.drop_append_of_le_length (by simp; omega)
  rw [← String.toList_inj, String.toList_append, toList_extract hi hj hab,
    toList_extract hj hk hbc, toList_extract hi hk (hab.trans hbc), hcut]

/-- The text of a range and what stands behind it is what stands behind its start. -/
theorem extract_append_behind (ha : s.HasPlace a) (hb : s.HasPlace b) (hab : a ≤ b) :
    s.extract ⟨a, b⟩ ++ s.behind b = s.behind a :=
  extract_append ha hb s.hasPlace_finish hab hb.le_finish

/-- A text is what stands before a stretch of it, the stretch, and what stands behind. -/
theorem before_append_extract (ha : s.HasPlace a) (hb : s.HasPlace b) (hab : a ≤ b) :
    s.before a ++ s.extract ⟨a, b⟩ ++ s.behind b = s.text := by
  have hall : s.extract ⟨Location.origin, s.finish⟩ = s.text := by
    rw [← String.toList_inj,
      toList_extract s.index?_origin s.index?_finish (s.hasPlace_origin.le_finish)]
    simp [text]
  rw [String.append_assoc, extract_append_behind ha hb hab, before, behind,
    extract_append s.hasPlace_origin ha s.hasPlace_finish ha.origin_le ha.le_finish, hall]

/-! ## Texts with gaps -/

/-- What stands between a range and the first one of those behind it; `last` if there is none. -/
def gapBehind (s : SourceText) (last : String) (r : Range) : List Range → String
  | [] => last
  | next :: _ => s.extract ⟨r.stop, next.start⟩

/-- The texts of ranges, each with what stands between it and the next one; the last one is
followed by `last`. -/
def withGaps (s : SourceText) (last : String) : List Range → List (String × String)
  | [] => []
  | r :: rest => (s.extract r, s.gapBehind last r rest) :: s.withGaps last rest

end SourceText

/-- Put texts together, each with the gap behind it except for the last one. -/
def joinGaps : List (String × String) → String
  | [] => ""
  | [(text, _)] => text
  | (text, gap) :: next :: rest => text ++ gap ++ joinGaps (next :: rest)

/-- The first piece is joined to the rest with the gap behind it. -/
theorem joinGaps_cons (text gap : String) {pieces : List (String × String)} (h : pieces ≠ []) :
    joinGaps ((text, gap) :: pieces) = text ++ gap ++ joinGaps pieces := by
  cases pieces with
  | nil => exact absurd rfl h
  | cons next rest => rw [joinGaps]

namespace SourceText

variable {s : SourceText}

@[simp] theorem map_fst_withGaps (s : SourceText) (last : String) (rs : List Range) :
    (s.withGaps last rs).map Prod.fst = rs.map s.extract := by
  induction rs with
  | nil => rfl
  | cons r rest ih => simp [withGaps, ih]

@[simp] theorem length_withGaps (s : SourceText) (last : String) (rs : List Range) :
    (s.withGaps last rs).length = rs.length := by
  rw [← List.length_map (f := Prod.fst), map_fst_withGaps, List.length_map]

/-- Pieces that come behind things in a line come after what is put behind the last thing. -/
theorem joinGaps_withGaps_append (last : String) {rs : List Range}
    {pieces : List (String × String)} (hrs : rs ≠ []) (hpieces : pieces ≠ []) :
    joinGaps (s.withGaps last rs ++ pieces) =
      joinGaps (s.withGaps last rs) ++ last ++ joinGaps pieces := by
  induction rs with
  | nil => exact absurd rfl hrs
  | cons r rest ih =>
    cases rest with
    | nil =>
      have hhead := joinGaps_cons (s.extract r) last hpieces
      simpa [withGaps, gapBehind, joinGaps] using hhead
    | cons next rest =>
      have hrest := ih (by simp)
      rw [withGaps, List.cons_append, joinGaps_cons _ _ (by simp [withGaps]), hrest,
        joinGaps_cons _ _ (by simp [withGaps])]
      simp only [String.append_assoc]

/-- Things in a line, with the gaps between them, fill the stretch from the first to the last
one. -/
theorem joinGaps_withGaps (last : String) {rs : List Range} {first final : Range}
    {start stop : Location} (hline : Between id (Range.Proper s.HasPlace) start rs stop)
    (hfirst : rs.head? = some first) (hfinal : rs.getLast? = some final) :
    joinGaps (s.withGaps last rs) = s.extract ⟨first.start, final.stop⟩ := by
  induction rs generalizing first start with
  | nil => cases hfirst
  | cons r rest ih =>
    obtain rfl : r = first := by simpa using hfirst
    cases rest with
    | nil =>
      obtain rfl : r = final := by simpa using hfinal
      rfl
    | cons next rest =>
      rcases between_cons.mp hline with ⟨-, hr, hrest⟩
      rcases between_cons.mp hrest with ⟨hgap, hnext, -⟩
      rw [List.getLast?_cons_cons] at hfinal
      have hmem : final ∈ next :: rest := List.mem_of_getLast? hfinal
      have hproper : final.Proper s.HasPlace := hrest.ok_of_mem hmem
      have hstop : next.start ≤ final.stop :=
        (hrest.head_start_le (fun _ h => h.le) hmem).trans hproper.le
      -- the text of the first thing, the gap behind it and the stretch of the others are one
      calc joinGaps (s.withGaps last (r :: next :: rest))
          = s.extract r ++ s.extract ⟨r.stop, next.start⟩ ++ s.extract ⟨next.start, final.stop⟩ := by
            rw [withGaps, joinGaps_cons _ _ (by simp [withGaps]), ih hrest rfl hfinal]
            rfl
        _ = s.extract ⟨r.start, next.start⟩ ++ s.extract ⟨next.start, final.stop⟩ := by
            rw [extract_append hr.start hr.stop hnext.start hr.le hgap]
        _ = s.extract ⟨r.start, final.stop⟩ :=
            extract_append hr.start hnext.start hproper.stop (hr.le.trans hgap) hstop

end SourceText

end Terse
