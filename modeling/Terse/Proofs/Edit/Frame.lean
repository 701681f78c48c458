import Mathlib.Tactic.Order
import Terse.Proofs.Edit.Splice

/-!
# What edits leave alone

Edits that lie between two locations of a text leave everything before the first location and
everything behind the second one as it is.
-/

namespace Terse

namespace PlacedEdit

/-- Lined edits that end by `stop` keep the text up to their start and the text from `stop` on. -/
theorem foldr_write_frame {cs : List Char} {from_ stop : Nat} {ps : List PlacedEdit}
    (h : Lined cs.length from_ ps) (hfrom : from_ ≤ stop) (hstop : ∀ p ∈ ps, p.stop ≤ stop) :
    ∃ new, ps.foldr write cs = cs.take from_ ++ new ++ cs.drop stop := by
  induction ps generalizing from_ with
  | nil =>
    -- nothing is written: what stands between the two locations stays too
    refine ⟨(cs.take stop).drop from_, ?_⟩
    rw [← take_eq_append cs hfrom]
    exact (List.take_append_drop stop cs).symm
  | cons p ps ih =>
    rcases h with ⟨h1, h2, h3⟩
    rw [List.forall_mem_cons] at hstop
    -- the later edits are written first and keep the text up to the end of this one
    rcases ih h3 hstop.1 hstop.2 with ⟨new, hfold⟩
    have hlen := lined_le_length h3
    obtain ⟨gap, hgap⟩ : ∃ gap, cs.take p.start = cs.take from_ ++ gap :=
      ⟨_, take_eq_append cs h1⟩
    refine ⟨gap ++ p.edit.text.toList ++ new, ?_⟩
    rw [List.foldr_cons, hfold, List.append_assoc, write_take_append h2 hlen, hgap]
    simp only [List.append_assoc]

end PlacedEdit

namespace SourceText

variable {s t : SourceText} {es : List Edit}

/-- The text outside two locations that enclose all edits stays as it is. -/
theorem apply_frame {a b : Location} {i j : Nat} (h : s.apply es = .ok t)
    (ha : s.index? a = some i) (hb : s.index? b = some j) (hab : a ≤ b)
    (hin : ∀ e ∈ es, a ≤ e.range.start ∧ e.range.stop ≤ b) :
    ∃ new, t.chars = s.chars.take i ++ new ++ s.chars.drop j := by
  rcases apply_eq_ok_iff.mp h with ⟨hes, hclash, rfl⟩
  have hlined : PlacedEdit.Lined s.chars.length i (s.sortedPlaces es) := by
    apply PlacedEdit.lined_of_pairwise _ (index?_le_length ha) _ (sortedPlaces_before hes hclash)
    · intro p hp
      rcases mem_sortedPlaces.mp hp with ⟨e, he, rfl⟩
      exact (le_iff_index_le ha (hes e he).start_eq).mp (hin e he).1
    · intro p hp
      rcases mem_sortedPlaces.mp hp with ⟨e, he, rfl⟩
      exact ⟨(hes e he).place_le, (hes e he).stop_le_length⟩
  apply PlacedEdit.foldr_write_frame hlined ((le_iff_index_le ha hb).mp hab)
  intro p hp
  rcases mem_sortedPlaces.mp hp with ⟨e, he, rfl⟩
  exact (le_iff_index_le (hes e he).stop_eq hb).mp (hin e he).2

/-- The text of a range outside two locations that enclose all edits is still there. -/
theorem apply_keeps_extract {a b : Location} {i j p q : Nat} {r : Range} (h : s.apply es = .ok t)
    (ha : s.index? a = some i) (hb : s.index? b = some j) (hab : a ≤ b)
    (hin : ∀ e ∈ es, a ≤ e.range.start ∧ e.range.stop ≤ b)
    (hstart : s.index? r.start = some p) (hstop : s.index? r.stop = some q)
    (hle : r.start ≤ r.stop) (hout : r.stop ≤ a ∨ b ≤ r.start) :
    (s.extract r).toList <:+: t.chars := by
  rcases apply_frame h ha hb hab hin with ⟨new, hchars⟩
  have hpq := (le_iff_index_le hstart hstop).mp hle
  have hextract : (s.extract r).toList = (s.chars.take q).drop p := by
    simp [extract, slice?, hstart, hstop, hpq]
  rw [hextract, hchars]
  rcases hout with hout | hout
  · -- the range stands in what is kept before the edits
    have hqi := (le_iff_index_le hstop ha).mp hout
    have hpiece : (s.chars.take q).drop p <:+: s.chars.take i :=
      (List.drop_suffix p _).isInfix.trans (List.take_prefix_take_left hqi).isInfix
    exact (hpiece.trans (List.prefix_append _ _).isInfix).trans (List.prefix_append _ _).isInfix
  · have hjp := (le_iff_index_le hb hstart).mp hout
    have hpiece : (s.chars.take q).drop p <:+: s.chars.drop j := by
      rw [List.drop_take]
      exact (List.take_prefix _ _).isInfix.trans (List.drop_suffix_drop_left _ hjp).isInfix
    exact hpiece.trans (List.suffix_append _ _).isInfix

end SourceText

end Terse
