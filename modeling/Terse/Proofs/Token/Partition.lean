import Terse.Proofs.Token.Comment
import Terse.Proofs.Token.Excerpt

/-!
# Tokens divide a text

The text between two tokens is nothing but spaces and complete comments, and each token is read from
the text between its ends. So no other character is skipped, and none is read twice.
-/

namespace Terse

open Lexeme (IsComment next isSpace)

/-- A character of what is put together belongs to the first text, or to the second one. -/
theorem append_eq_append_cons {α : Type} {as bs before behind : List α} {c : α}
    (h : as ++ bs = before ++ c :: behind) :
    (∃ later, as = before ++ c :: later) ∨
      ∃ earlier, before = as ++ earlier ∧ bs = earlier ++ c :: behind := by
  rcases List.append_eq_append_iff.mp h with ⟨earlier, hbefore, hbs⟩ | ⟨later, has, hbehind⟩
  · exact .inr ⟨earlier, hbefore, hbs⟩
  · cases later with
    | nil => exact .inr ⟨[], by simpa using has.symm, hbehind.symm⟩
    | cons d later =>
      cases hbehind
      exact .inl ⟨later, has⟩

/-! ## What is skipped -/

/-- Spaces and complete comments, one after the other, in front of another text. -/
inductive IsSkipped : List Char → List Char → Prop where
  | nil {behind : List Char} : IsSkipped [] behind
  | space {c : Char} {cs behind : List Char} (hc : isSpace c) (h : IsSkipped cs behind) :
      IsSkipped (c :: cs) behind
  | comment {own cs behind : List Char} (hown : IsComment own (cs ++ behind))
      (h : IsSkipped cs behind) : IsSkipped (own ++ cs) behind

namespace IsSkipped

variable {cs ds behind before later : List Char} {c : Char}

theorem append (hcs : IsSkipped cs (ds ++ behind)) (hds : IsSkipped ds behind) :
    IsSkipped (cs ++ ds) behind := by
  generalize hrest : ds ++ behind = rest at hcs
  induction hcs with
  | nil => exact hds
  | space hc _ ih => exact .space hc (ih hrest)
  | comment hown _ ih =>
    cases hrest
    rw [← List.append_assoc] at hown
    have hall := IsSkipped.comment hown (ih rfl)
    rwa [← List.append_assoc] at hall

/-- A character that is skipped is a space, or there is a comment around it that is skipped too. -/
theorem isSpace_or_comment (h : IsSkipped cs behind) (hcs : cs = before ++ c :: later) :
    isSpace c ∨ ∃ front own rest, cs = front ++ (own ++ rest) ∧ IsComment own (rest ++ behind) ∧
      front.length ≤ before.length ∧ before.length < front.length + own.length := by
  induction h generalizing before with
  | nil => simp at hcs
  | @space d ds _ hd _ ih =>
    cases before with
    | nil =>
      cases hcs
      exact .inl hd
    | cons d before =>
      rw [List.cons_append, List.cons.injEq] at hcs
      obtain ⟨rfl, hcs⟩ := hcs
      rcases ih hcs with hc | ⟨front, own, rest, hfront, hown, hle, hlt⟩
      · exact .inl hc
      · refine .inr ⟨d :: front, own, rest, by rw [hfront]; rfl, hown, Nat.succ_le_succ hle, ?_⟩
        rw [List.length_cons, List.length_cons]
        omega
  | @comment own cs _ hown _ ih =>
    -- the character is in this comment or behind it
    rcases append_eq_append_cons hcs with ⟨rest, hrest⟩ | ⟨earlier, hbefore, hcs⟩
    · refine .inr ⟨[], own, cs, rfl, hown, Nat.zero_le _, ?_⟩
      simp [hrest]
    · rcases ih hcs with hc | ⟨front, own', rest, hfront, hown', hle, hlt⟩
      · exact .inl hc
      · refine .inr ⟨own ++ front, own', rest, by rw [hfront, List.append_assoc], hown', ?_, ?_⟩
        · rw [hbefore, List.length_append, List.length_append]
          exact Nat.add_le_add_left hle _
        · rw [hbefore, List.length_append, List.length_append]
          omega

end IsSkipped

/-- A lexeme that is no token is skipped. -/
theorem Lexeme.isSkipped_of_next {attached : Option Token.Kind} {c : Char} {rest : List Char}
    {cls : Class} {n : Nat} (h : next attached c rest = .ok (cls, n)) (hcls : cls.token? = none) :
    IsSkipped (c :: rest.take n) (rest.drop n) := by
  rcases skipped_of_next h hcls with ⟨rfl, hc⟩ | hcomment
  · exact .space hc .nil
  · rw [← List.nil_append (rest.drop n)] at hcomment
    have hskipped := IsSkipped.comment hcomment .nil
    rwa [List.append_nil] at hskipped

/-! ## Divided texts -/

namespace Token

/-- From `here` on the text is divided: each token is read from exactly the text between its ends,
and what stands between the tokens, and before and behind them, is skipped. -/
inductive Divide : Location → List Token → List Char → Prop where
  | nil {here : Location} {gap : List Char} (hgap : IsSkipped gap []) : Divide here [] gap
  | cons {here : Location} {gap own rest : List Char} {c : Char} {attached : Option Kind}
      {kind : Kind} {startsRow : Bool} {ts : List Token} (hgap : IsSkipped gap (c :: own ++ rest))
      (hread : next attached c (own ++ rest) = .ok (.token kind, own.length))
      (h : Divide (here.afterAll (gap ++ c :: own)) ts rest) :
      Divide here
        (⟨kind, ⟨here.afterAll gap, here.afterAll (gap ++ c :: own)⟩, startsRow⟩ :: ts)
        (gap ++ (c :: own ++ rest))

namespace Divide

variable {here : Location} {ts : List Token} {own text : List Char}

/-- More that is skipped makes the first gap longer. -/
theorem prepend (hown : IsSkipped own text) (h : Divide (here.afterAll own) ts text) :
    Divide here ts (own ++ text) := by
  cases h with
  | nil hgap =>
    rw [← List.append_nil text] at hown
    exact .nil (hown.append hgap)
  | cons hgap hread h =>
    rw [← List.append_assoc]
    rw [← Location.afterAll_append, ← List.append_assoc] at h
    rw [← Location.afterAll_append, ← Location.afterAll_append, ← List.append_assoc]
    exact .cons (hown.append hgap) hread h

/-- The tokens stand behind the start of the text, are not empty, and follow one another. -/
theorem inOrder (h : Divide here ts text) :
    (∀ t ∈ ts, here ≤ t.range.start ∧ t.range.start < t.range.stop) ∧
      ts.Pairwise fun a b => a.range.stop ≤ b.range.start := by
  induction h with
  | nil => simp
  | @cons here gap own rest c attached kind startsRow ts hgap hread h ih =>
    obtain ⟨hall, hpairwise⟩ := ih
    have hlt : here.afterAll gap < here.afterAll (gap ++ c :: own) :=
      Location.afterAll_lt_append here gap (List.cons_ne_nil c own)
    have hle := Location.le_afterAll here gap
    constructor
    · intro t ht
      rcases List.mem_cons.mp ht with rfl | ht
      · exact ⟨hle, hlt⟩
      · exact ⟨(hle.trans hlt.le).trans (hall t ht).1, (hall t ht).2⟩
    · exact List.pairwise_cons.mpr ⟨fun t ht => (hall t ht).1, hpairwise⟩

end Divide

/-- The character with this index belongs to a complete comment, and no token to any part of it. -/
def InComment (here : Location) (ts : List Token) (text : List Char) (i : Nat) : Prop :=
  ∃ front own behind, text = front ++ (own ++ behind) ∧ IsComment own behind ∧
    front.length ≤ i ∧ i < front.length + own.length ∧
    ∀ t ∈ ts, t.range.stop ≤ here.afterAll front ∨ here.afterAll (front ++ own) ≤ t.range.start

/-- The character behind `before` belongs to exactly one token; or to none, and then it is a space
or belongs to a comment. -/
def Covered (here : Location) (ts : List Token) (text before : List Char) (c : Char) : Prop :=
  (∃! t, t ∈ ts ∧ t.range.containsLocation (here.afterAll before)) ∨
    (∀ t ∈ ts, ¬ t.range.containsLocation (here.afterAll before)) ∧
      (c ∈ [' ', '\t', '\r', '\n'] ∨ InComment here ts text before.length)

variable {here l : Location} {t : Token} {ts : List Token} {c : Char}
  {text before front : List Char}

theorem containsLocation_iff :
    t.range.containsLocation l ↔ t.range.start ≤ l ∧ l < t.range.stop := by
  rw [Range.containsLocation, Bool.and_eq_true, decide_eq_true_eq, decide_eq_true_eq]

/-- What stands in front of a text does not change its comments. -/
theorem InComment.prepend {i : Nat} (h : InComment (here.afterAll front) ts text i)
    (ht : t.range.stop ≤ here.afterAll front) :
    InComment here (t :: ts) (front ++ text) (front.length + i) := by
  obtain ⟨left, own, rest, rfl, hown, hle, hlt, hapart⟩ := h
  refine ⟨front ++ left, own, rest, by simp, hown, ?_, ?_, ?_⟩
  · rw [List.length_append]
    exact Nat.add_le_add_left hle _
  · rw [List.length_append, Nat.add_assoc]
    exact Nat.add_lt_add_left hlt _
  · rw [List.append_assoc, Location.afterAll_append, Location.afterAll_append here front]
    intro u hu
    rcases List.mem_cons.mp hu with rfl | hu
    · exact .inl (ht.trans (Location.le_afterAll _ left))
    · exact hapart u hu

/-- A character behind a token is covered by what stands behind it. -/
theorem Covered.prepend (h : Covered (here.afterAll front) ts text before c)
    (ht : t.range.stop ≤ here.afterAll front) :
    Covered here (t :: ts) (front ++ text) (front ++ before) c := by
  have hle := ht.trans (Location.le_afterAll (here.afterAll front) before)
  have hother : ¬ t.range.containsLocation ((here.afterAll front).afterAll before) := by
    rw [containsLocation_iff]
    exact fun hcontains => hle.not_gt hcontains.2
  unfold Covered at h ⊢
  rw [Location.afterAll_append, List.length_append]
  rcases h with ⟨u, ⟨hu, hcontains⟩, hunique⟩ | ⟨hnone, hskipped⟩
  · refine .inl ⟨u, ⟨List.mem_cons_of_mem t hu, hcontains⟩, ?_⟩
    rintro v ⟨hv, hcontains'⟩
    rcases List.mem_cons.mp hv with rfl | hv
    · exact absurd hcontains' hother
    · exact hunique v ⟨hv, hcontains'⟩
  · refine .inr ⟨List.forall_mem_cons.mpr ⟨hother, hnone⟩, ?_⟩
    exact hskipped.imp_right fun hcomment => hcomment.prepend ht

/-- A character of the first token belongs to no other one. -/
theorem covered_head (hts : ∀ u ∈ ts, t.range.stop ≤ u.range.start)
    (hstart : t.range.start ≤ here.afterAll before) (hstop : here.afterAll before < t.range.stop) :
    Covered here (t :: ts) text before c := by
  refine .inl ⟨t, ⟨List.mem_cons_self, containsLocation_iff.mpr ⟨hstart, hstop⟩⟩, ?_⟩
  rintro u ⟨hu, hcontains⟩
  rcases List.mem_cons.mp hu with rfl | hu
  · rfl
  · exact absurd (containsLocation_iff.mp hcontains).1 (hstop.trans_le (hts u hu)).not_ge

/-- A character in front of all tokens is skipped. -/
theorem covered_gap {gap rest later : List Char} (hgap : IsSkipped gap rest)
    (hts : ∀ t ∈ ts, here.afterAll gap ≤ t.range.start) (h : gap = before ++ c :: later) :
    Covered here ts (gap ++ rest) before c := by
  have hlt : here.afterAll before < here.afterAll gap := by
    rw [h]
    exact Location.afterAll_lt_append here before (List.cons_ne_nil c later)
  right
  constructor
  · intro t ht hcontains
    exact (hlt.trans_le (hts t ht)).not_ge (containsLocation_iff.mp hcontains).1
  · rcases hgap.isSpace_or_comment h with hc | ⟨left, own, right, hsplit, hown, hle, hlt⟩
    · left
      simpa [isSpace, or_assoc] using hc
    · refine .inr ⟨left, own, right ++ rest, by simp [hsplit], hown, hle, hlt, ?_⟩
      intro t ht
      have hstop : here.afterAll (left ++ own) ≤ here.afterAll gap := by
        rw [hsplit, ← List.append_assoc]
        exact Location.afterAll_le_append here (left ++ own) right
      exact .inr (hstop.trans (hts t ht))

/-- A divided text is covered. -/
theorem Divide.covered {behind : List Char} (h : Divide here ts text)
    (htext : text = before ++ c :: behind) : Covered here ts text before c := by
  induction h generalizing before with
  | @nil here gap hgap =>
    have hcovered : Covered here [] (gap ++ []) before c := covered_gap hgap (by simp) htext
    rwa [List.append_nil] at hcovered
  | @cons here gap own rest d attached kind startsRow ts hgap hread h ih =>
    have hall := h.inOrder.1
    have hstart : here.afterAll gap ≤ here.afterAll (gap ++ d :: own) :=
      Location.afterAll_le_append here gap (d :: own)
    -- the character stands in the gap, in the first token, or behind it
    rcases append_eq_append_cons htext with ⟨later, hlater⟩ | ⟨earlier, rfl, hrest⟩
    · refine covered_gap hgap ?_ hlater
      rw [List.forall_mem_cons]
      exact ⟨le_rfl, fun t ht => hstart.trans (hall t ht).1⟩
    rcases append_eq_append_cons hrest with ⟨later, hlater⟩ | ⟨earlier, rfl, hbehind⟩
    · have hstop : here.afterAll (gap ++ earlier) < here.afterAll (gap ++ d :: own) := by
        rw [hlater, ← List.append_assoc]
        exact Location.afterAll_lt_append here (gap ++ earlier) (List.cons_ne_nil c later)
      exact covered_head (fun t ht => (hall t ht).1)
        (Location.afterAll_le_append here gap earlier) hstop
    · rw [← List.append_assoc, ← List.append_assoc]
      exact (ih hbehind).prepend le_rfl

/-! ## Scanned texts -/

/-- Lexemes that make up a text divide it by the tokens among them. -/
theorem divide_place {attached : Option Kind} {ps : List Lexeme.Piece} {row : Option Nat}
    (h : Lexeme.cutFrom 0 attached text = (ps, none)) :
    Divide here (Lexeme.place here row ps) text := by
  induction ps generalizing attached text here row with
  | nil =>
    rw [Lexeme.cutFrom_nil_iff.mp h]
    exact .nil .nil
  | cons p ps ih =>
    obtain ⟨c, rest, n, rfl, hnext, htext, hcut⟩ := Lexeme.cutFrom_cons_iff.mp h
    have hsplit : c :: rest = (c :: rest.take n) ++ rest.drop n := by simp
    rw [Lexeme.place, htext]
    split
    · rename_i kind hkind
      rw [hkind] at hnext
      have hlength : (rest.take n).length = n := List.length_take_of_le (Lexeme.next_le hnext)
      have hread : next attached c (rest.take n ++ rest.drop n) =
          .ok (.token kind, (rest.take n).length) := by
        rw [List.take_append_drop, hlength, hnext]
      rw [hsplit]
      exact Divide.cons .nil hread (ih hcut)
    · rename_i hkind
      rw [hsplit]
      -- a skipped piece goes to the text before the next token
      exact (ih hcut).prepend (Lexeme.isSkipped_of_next hnext (Lexeme.token?_eq_none hkind))

/-- The tokens of a text are not empty, stand in order, and divide it: each is read from exactly its
own text. A character belongs to one token only; one that belongs to none is a space, or belongs to
a complete comment that is apart from all tokens. -/
theorem scan_partition (h : scan text = .ok ts) :
    (∀ t ∈ ts, t.range.start < t.range.stop) ∧
      (ts.Pairwise fun a b => a.range.stop ≤ b.range.start) ∧
      Divide Location.origin ts text ∧
      ∀ before c behind, text = before ++ c :: behind →
        Covered Location.origin ts text before c := by
  obtain ⟨pieces, hcut, rfl⟩ := exists_of_scan h
  have hdivide : Divide Location.origin (Lexeme.place Location.origin none pieces) text :=
    divide_place hcut
  obtain ⟨hall, hpairwise⟩ := hdivide.inOrder
  refine ⟨fun t ht => (hall t ht).2, hpairwise, hdivide, ?_⟩
  intro before c behind htext
  exact hdivide.covered htext

/-- Comments stand between and behind the tokens, and a text literal holds what only looks like
one. -/
theorem scan_partition_comments :
    ∃ text ts, text = "f \x7b- a \x7b- b -\x7d c -\x7d \"-- d\" -- e".toList ∧ scan text = .ok ts ∧
      ts.map (·.range) = [⟨⟨1, 1⟩, ⟨1, 2⟩⟩, ⟨⟨1, 21⟩, ⟨1, 27⟩⟩] ∧
      (∀ t ∈ ts, t.range.start < t.range.stop) ∧
      (ts.Pairwise fun a b => a.range.stop ≤ b.range.start) ∧
      Divide Location.origin ts text ∧
      ∀ before c behind, text = before ++ c :: behind →
        Covered Location.origin ts text before c := by
  have hscan : scan "f \x7b- a \x7b- b -\x7d c -\x7d \"-- d\" -- e".toList =
      .ok [⟨.lower [] "f", ⟨⟨1, 1⟩, ⟨1, 2⟩⟩, true⟩,
        ⟨.string "-- d", ⟨⟨1, 21⟩, ⟨1, 27⟩⟩, false⟩] := by
    decide +kernel
  exact ⟨_, _, rfl, hscan, rfl, scan_partition hscan⟩

end Token

end Terse
