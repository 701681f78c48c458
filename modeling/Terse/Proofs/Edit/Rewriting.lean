import Mathlib.Tactic.Order
import Terse.Proofs.Edit.Fix
import Terse.Proofs.Edit.Splice
import Terse.Proofs.Text.Gaps

/-!
# Edits that stand in a line

Edits that follow one another, of which no two insert at one place, are always applied. What they
give is told from the front: what stands before the first edit, its text, and then what the others
make of the rest.
-/

namespace Terse.SourceText

/-- What edits that follow one another make of the text from a place on. -/
def rewritten (s : SourceText) (here : Location) : List Edit → String
  | [] => s.behind here
  | e :: es => s.extract ⟨here, e.range.start⟩ ++ e.text ++ s.rewritten e.range.stop es

variable {s : SourceText} {es : List Edit} {here stop : Location}

theorem Admits.of_proper {e : Edit} (h : e.range.Proper s.HasPlace) : s.Admits e :=
  ⟨h.le, h.start, h.stop⟩

/-- The places of edits in a line are in order as they are. -/
theorem sortedPlaces_of_line (hline : Between Edit.range s.Admits here es stop) :
    s.sortedPlaces es = es.map s.placeOf := by
  apply List.mergeSort_of_pairwise
  rw [List.pairwise_map]
  refine (hline.pairwise fun _ h => h.le).imp_of_mem ?_
  intro a b ha hb hab
  have ha' : s.Admits a := hline.ok_of_mem ha
  have hb' : s.Admits b := hline.ok_of_mem hb
  have hgap : (s.placeOf a).stop ≤ (s.placeOf b).start :=
    (le_iff_index_le ha'.stop_eq hb'.start_eq).mp hab
  have hle := ha'.place_le
  have hle' := hb'.place_le
  rw [PlacedEdit.startsFirst_iff]
  simp only [InOrder, PlacedEdit.span]
  omega

/-- Written from the last to the first, edits in a line keep the text up to a place before them and
rewrite the text behind it. -/
theorem foldr_write_line {i : Nat} (hi : s.index? here = some i)
    (hline : Between Edit.range s.Admits here es stop) :
    (es.map s.placeOf).foldr PlacedEdit.write s.chars =
      s.chars.take i ++ (s.rewritten here es).toList := by
  induction es generalizing here i with
  | nil =>
    have hrest := toList_extract hi s.index?_finish (hasPlace_of_index hi).le_finish
    rw [rewritten, behind, hrest]
    simp
  | cons e es ih =>
    rcases between_cons.mp hline with ⟨hgap, he, hrest⟩
    have hfold := ih he.stop_eq hrest
    have hplace : i ≤ (s.placeOf e).start := (le_iff_index_le hi he.start_eq).mp hgap
    have hbefore := toList_extract hi he.start_eq hgap
    rw [List.map_cons, List.foldr_cons, hfold,
      PlacedEdit.write_take_append he.place_le he.stop_le_length, take_eq_append s.chars hplace,
      rewritten, String.toList_append, String.toList_append, hbefore]
    simp only [List.append_assoc]
    rfl

/-- Edits that stand in a line, of which no two insert at one place, rewrite the text. -/
theorem apply_of_line (hline : Between Edit.range s.Admits Location.origin es stop)
    (hapart : es.Pairwise fun a b => Apart a.range.span b.range.span) :
    (s.apply es).map text = .ok (s.rewritten Location.origin es) := by
  have hes : ∀ e ∈ es, s.Admits e := fun e he => hline.ok_of_mem he
  have hclash := (no_clash_iff_apart hes).mpr hapart
  have hfold := foldr_write_line s.index?_origin hline
  rw [map_ok_iff]
  refine ⟨_, apply_eq_ok_iff.mpr ⟨hes, hclash, rfl⟩, ?_⟩
  rw [sortedPlaces_of_line hline, hfold, text, List.take_zero, List.nil_append,
    String.ofList_toList]

/-- Edits that change something each have their places. -/
theorem admitted_of_proper_line
    (hline : Between Edit.range (fun e => e.range.Proper s.HasPlace) here es stop) :
    Between Edit.range s.Admits here es stop := by
  have hmap := hline.map id (fun _ _ => rfl) fun _ h => Admits.of_proper h
  rwa [List.map_id] at hmap

/-- Edits that change something each and follow one another rewrite the text. -/
theorem apply_of_proper_line
    (hline : Between Edit.range (fun e => e.range.Proper s.HasPlace) Location.origin es stop) :
    (s.apply es).map text = .ok (s.rewritten Location.origin es) :=
  apply_of_line (admitted_of_proper_line hline) (pairwise_apart_of_between hline)

/-- What stands before the edits may be told apart from what they rewrite. -/
theorem rewritten_from {later : Location} (hhere : s.HasPlace here) (hlater : s.HasPlace later)
    (hle : here ≤ later) (hline : Between Edit.range s.Admits later es stop) :
    s.rewritten here es = s.extract ⟨here, later⟩ ++ s.rewritten later es := by
  cases es with
  | nil => exact (extract_append_behind hhere hlater hle).symm
  | cons e es =>
    rcases between_cons.mp hline with ⟨hgap, he, -⟩
    rw [rewritten, rewritten, ← extract_append hhere hlater he.start hle hgap]
    simp only [String.append_assoc]

end Terse.SourceText
