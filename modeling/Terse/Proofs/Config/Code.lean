import Mathlib.Data.List.Forall2
import Mathlib.Data.List.Nodup
import Mathlib.Data.List.TakeWhile
import Terse.Config.Basic
import Terse.Proofs.Text.Letter

/-!
# Texts that stand for rules

A configuration names rules by their codes. White space around a code does not count, nor whether
its letters are capital or small; all else does. So a text names one rule at most, and reading a
list of texts stops at the first one that names none.
-/

namespace Terse

namespace Letter

theorem isBlank_eq_false {c : Char} (h : 33 ≤ c.toNat) (h' : c.toNat ≤ 132) :
    isBlank c = false := by
  have h9 : 9 ≤ c.toNat := by omega
  have h14 : 14 ≤ c.toNat := by omega
  have h32 : 32 ≤ c.toNat := by omega
  have h133 : ¬ 133 ≤ c.toNat := by omega
  simp [isBlank, memberByPoints_eq, blankPoints, memberFrom, h9, h14, h32, h, h133]

/-- White space has no small form. -/
theorem toLower_of_isBlank {c : Char} (h : isBlank c = true) : c.toLower = c := by
  have hcapital : ¬ (65 ≤ c.toNat ∧ c.toNat ≤ 90) := by
    intro hrange
    rw [isBlank_eq_false (by omega) (by omega)] at h
    cases h
  unfold Char.toLower
  exact dif_neg hcapital

/-- The white space at the ends of a text is what is trimmed. -/
theorem exists_around_trim (cs : List Char) :
    ∃ before behind, cs = before ++ trim cs ++ behind ∧ (∀ c ∈ before, isBlank c = true) ∧
      ∀ c ∈ behind, isBlank c = true := by
  refine ⟨cs.takeWhile isBlank, ((cs.dropWhile isBlank).reverse.takeWhile isBlank).reverse,
    ?_, fun c hc => List.mem_takeWhile_imp hc, ?_⟩
  · rw [trim, List.append_assoc, ← List.reverse_append, List.takeWhile_append_dropWhile,
      List.reverse_reverse, List.takeWhile_append_dropWhile]
  · intro c hc
    exact List.mem_takeWhile_imp (List.mem_reverse.mp hc)

theorem dropWhile_blank {before cs : List Char} (h : ∀ c ∈ before, isBlank c = true) :
    (before ++ cs).dropWhile isBlank = cs.dropWhile isBlank :=
  List.dropWhile_append_of_pos h

/-- A text without white space is what is left of it with white space around. -/
theorem trim_around {before written behind : List Char} (hbefore : ∀ c ∈ before, isBlank c = true)
    (hwritten : ∀ c ∈ written, isBlank c = false) (hbehind : ∀ c ∈ behind, isBlank c = true) :
    trim (before ++ written ++ behind) = written := by
  have hback : ∀ c ∈ behind.reverse, isBlank c = true := by
    intro c hc
    exact hbehind c (List.mem_reverse.mp hc)
  rw [trim, List.append_assoc, dropWhile_blank hbefore]
  cases written with
  | nil =>
    have hall : behind.dropWhile isBlank = [] := List.dropWhile_eq_nil_iff.mpr hbehind
    rw [List.nil_append, hall]
    rfl
  | cons c cs =>
    have hfirst : ¬ isBlank c = true := by simp [hwritten c List.mem_cons_self]
    rw [List.cons_append, List.dropWhile_cons_of_neg hfirst, ← List.cons_append,
      List.reverse_append, dropWhile_blank hback]
    -- from behind, the text starts with its last character
    have hrest : (c :: cs).reverse.dropWhile isBlank = (c :: cs).reverse := by
      cases hreverse : (c :: cs).reverse with
      | nil => rfl
      | cons d ds =>
        have hd : d ∈ c :: cs := by
          rw [← List.mem_reverse, hreverse]
          exact List.mem_cons_self
        exact List.dropWhile_cons_of_neg (by simp [hwritten d hd])
    rw [hrest, List.reverse_reverse]

end Letter

namespace RuleCode

/-- The text spells the code of the family, in letters of either case and with nothing but white
space around it. -/
def IsNamedBy (code : RuleCode) (text : String) : Prop :=
  ∃ before written behind, text.toList = before ++ written ++ behind ∧
    (∀ c ∈ before, Letter.isBlank c = true) ∧ (∀ c ∈ behind, Letter.isBlank c = true) ∧
    List.Forall₂ (fun c d : Char => c.toLower = d.toLower) written code.code.toList

/-- The text names a rule. -/
def IsKnown (text : String) : Prop := ∃ code : RuleCode, code.IsNamedBy text

theorem mem_all (code : RuleCode) : code ∈ all := by
  cases code <;> decide

/-- Codes differ, and not in the case of their letters alone. -/
theorem lowercase_code_injective {code code' : RuleCode}
    (h : lowercase code.code.toList = lowercase code'.code.toList) : code = code' := by
  have hnodup : (all.map fun c => lowercase c.code.toList).Nodup := by decide +kernel
  exact List.inj_on_of_nodup_map hnodup (mem_all code) (mem_all code') h

theorem code_not_blank (code : RuleCode) :
    ∀ d ∈ lowercase code.code.toList, Letter.isBlank d = false := by
  have hall : (lowercase code.code.toList).all (fun d => !Letter.isBlank d) = true := by
    cases code <;> decide
  intro d hd
  simpa using List.all_eq_true.mp hall d hd

theorem forall₂_iff_lowercase {cs ds : List Char} :
    List.Forall₂ (fun c d : Char => c.toLower = d.toLower) cs ds ↔
      lowercase cs = lowercase ds := by
  rw [lowercase, lowercase, ← List.forall₂_eq_eq_eq, List.forall₂_map_left_iff,
    List.forall₂_map_right_iff]

theorem isNamedBy_iff {code : RuleCode} {text : String} :
    code.IsNamedBy text ↔ lowercase code.code.toList = lowercase (Letter.trim text.toList) := by
  constructor
  · rintro ⟨before, written, behind, htext, hbefore, hbehind, hsame⟩
    rw [forall₂_iff_lowercase] at hsame
    have hwritten : ∀ c ∈ written, Letter.isBlank c = false := by
      intro c hc
      have hmem : c.toLower ∈ lowercase code.code.toList := by
        rw [← hsame]
        exact List.mem_map_of_mem hc
      have hlower := code_not_blank code _ hmem
      -- a blank would be its own small form
      by_contra hblank
      rw [Bool.not_eq_false] at hblank
      rw [Letter.toLower_of_isBlank hblank, hblank] at hlower
      cases hlower
    rw [htext, Letter.trim_around hbefore hwritten hbehind, hsame]
  · intro h
    rcases Letter.exists_around_trim text.toList with ⟨before, behind, htext, hbefore, hbehind⟩
    exact ⟨before, _, behind, htext, hbefore, hbehind, forall₂_iff_lowercase.mpr h.symm⟩

/-- A text is read as the one rule that it names. -/
theorem ofText?_eq_some_iff {code : RuleCode} {text : String} :
    ofText? text = some code ↔ code.IsNamedBy text := by
  rw [isNamedBy_iff]
  constructor
  · intro h
    have hsame := List.find?_some (show List.find? _ all = some code from h)
    exact beq_iff_eq.mp hsame
  · intro h
    cases hfound : ofText? text with
    | none =>
      have hnone := List.find?_eq_none.mp hfound code (mem_all code)
      exact absurd (beq_iff_eq.mpr h) hnone
    | some code' =>
      have hsame := List.find?_some (show List.find? _ all = some code' from hfound)
      rw [lowercase_code_injective (h.trans (beq_iff_eq.mp hsame).symm)]

theorem isKnown_iff {text : String} : IsKnown text ↔ (ofText? text).isSome = true := by
  rw [Option.isSome_iff_exists]
  exact exists_congr fun code => ofText?_eq_some_iff.symm

theorem ofText?_eq_none_iff {text : String} : ofText? text = none ↔ ¬ IsKnown text := by
  rw [isKnown_iff, Option.not_isSome_iff_eq_none]

/-- The text is the first one of a list that names no rule. -/
def FirstUnknown (texts : List String) (text : String) : Prop :=
  ∃ before behind, texts = before ++ text :: behind ∧ (∀ t ∈ before, IsKnown t) ∧ ¬ IsKnown text

theorem not_firstUnknown_nil {text : String} : ¬ FirstUnknown [] text := by
  rintro ⟨before, behind, h, -⟩
  simp at h

theorem firstUnknown_cons_of_known {t text : String} {texts : List String} (ht : IsKnown t) :
    FirstUnknown (t :: texts) text ↔ FirstUnknown texts text := by
  constructor
  · rintro ⟨before, behind, h, hknown, hunknown⟩
    cases before with
    | nil =>
      cases h
      exact absurd ht hunknown
    | cons u before =>
      cases h
      exact ⟨before, behind, rfl, fun t h => hknown t (List.mem_cons_of_mem _ h), hunknown⟩
  · rintro ⟨before, behind, rfl, hknown, hunknown⟩
    exact ⟨t :: before, behind, rfl, List.forall_mem_cons.mpr ⟨ht, hknown⟩, hunknown⟩

theorem firstUnknown_cons_of_unknown {t text : String} {texts : List String} (ht : ¬ IsKnown t) :
    FirstUnknown (t :: texts) text ↔ text = t := by
  constructor
  · rintro ⟨before, behind, h, hknown, -⟩
    cases before with
    | nil =>
      cases h
      rfl
    | cons u before =>
      cases h
      exact absurd (hknown t List.mem_cons_self) ht
  · rintro rfl
    exact ⟨[], texts, rfl, by simp, ht⟩

/-- If some text names no rule, one of them is the first. -/
theorem exists_firstUnknown {texts : List String} (h : ∃ t ∈ texts, ¬ IsKnown t) :
    ∃ text, FirstUnknown texts text := by
  induction texts with
  | nil => simp at h
  | cons t texts ih =>
    by_cases ht : IsKnown t
    · rcases h with ⟨u, hu, hunknown⟩
      rcases List.mem_cons.mp hu with rfl | hu
      · exact absurd ht hunknown
      · rcases ih ⟨u, hu, hunknown⟩ with ⟨text, htext⟩
        exact ⟨text, (firstUnknown_cons_of_known ht).mpr htext⟩
    · exact ⟨t, (firstUnknown_cons_of_unknown ht).mpr rfl⟩

end RuleCode

namespace Config

open RuleCode (IsKnown FirstUnknown)

/-- Reading texts succeeds when each one names a rule, and gives these rules. -/
theorem codes_of_known {texts : List String} (h : ∀ t ∈ texts, IsKnown t) :
    codes texts = .ok (texts.filterMap RuleCode.ofText?) := by
  induction texts with
  | nil => rfl
  | cons t texts ih =>
    rw [List.forall_mem_cons] at h
    rcases h.1 with ⟨code, hcode⟩
    rw [← RuleCode.ofText?_eq_some_iff] at hcode
    rw [codes, hcode, ih h.2, List.filterMap_cons, hcode]
    rfl

/-- Reading texts fails with the first one that names no rule. -/
theorem codes_eq_error_iff {texts : List String} {e : ConfigError} :
    codes texts = .error e ↔ ∃ text, e = .unknownRuleCode text ∧ FirstUnknown texts text := by
  induction texts with
  | nil => simp [codes, RuleCode.not_firstUnknown_nil]
  | cons t texts ih =>
    rw [codes]
    cases hfound : RuleCode.ofText? t with
    | none =>
      simp only [RuleCode.firstUnknown_cons_of_unknown (RuleCode.ofText?_eq_none_iff.mp hfound),
        exists_eq_right, Except.error.injEq]
      exact eq_comm
    | some code =>
      simp only [RuleCode.firstUnknown_cons_of_known ⟨code, RuleCode.ofText?_eq_some_iff.mp hfound⟩,
        ← ih]
      cases codes texts <;> simp [Except.map]

theorem exists_codes_eq_ok_iff {texts : List String} :
    (∃ cs, codes texts = .ok cs) ↔ ∀ t ∈ texts, IsKnown t := by
  constructor
  · rintro ⟨cs, hcs⟩
    by_contra hunknown
    push Not at hunknown
    rcases RuleCode.exists_firstUnknown hunknown with ⟨text, htext⟩
    rw [codes_eq_error_iff.mpr ⟨text, rfl, htext⟩] at hcs
    cases hcs
  · intro h
    exact ⟨_, codes_of_known h⟩

end Config

end Terse
