import Mathlib.Tactic.Order
import Terse.Proofs.Edit.Rewriting
import Terse.Proofs.Rule.Finding

/-!
# What is left of a node that shrinks

A node that is shrunk to a part of it leaves the text of the part, in parentheses where the place
asks for them, and all that stands outside the node.
-/

namespace Terse

open SourceText

namespace Context

variable {s : SourceText} {here stop : Location} {beside : Range} {es : List Edit}

/-- The edit that removes what stands beside a part, if anything does, stands in line with those
behind it. -/
theorem besideBare_append_line {place : Location → Prop} (hhere : here ≤ beside.start)
    (hle : beside.start ≤ beside.stop) (hstart : place beside.start) (hstop : place beside.stop)
    (hline : Between Edit.range (fun e => e.range.Proper place) beside.stop es stop) :
    Between Edit.range (fun e => e.range.Proper place) here (besideBare beside ++ es) stop := by
  by_cases hempty : beside.stop ≤ beside.start
  · simp only [besideBare, Range.isEmpty, hempty, decide_true, if_true, List.nil_append]
    exact hline.mono (hhere.trans hle) le_rfl
  · simp only [besideBare, Range.isEmpty, hempty, decide_false, Bool.false_eq_true, if_false,
      List.singleton_append]
    exact between_cons.mpr ⟨hhere, ⟨not_le.mp hempty, hstart, hstop⟩, hline⟩

/-- Removing what stands beside a part leaves nothing of it, also where nothing stands there. -/
theorem rewritten_besideBare_append (hplace : s.HasPlace here) (hhere : here ≤ beside.start)
    (hle : beside.start ≤ beside.stop) (hstart : s.HasPlace beside.start)
    (hline : Between Edit.range s.Admits beside.stop es stop) :
    s.rewritten here (besideBare beside ++ es) =
      s.extract ⟨here, beside.start⟩ ++ s.rewritten beside.stop es := by
  by_cases hempty : beside.stop ≤ beside.start
  · have heq : beside.stop = beside.start := le_antisymm hempty hle
    simp only [besideBare, Range.isEmpty, hempty, decide_true, if_true, List.nil_append]
    rw [heq] at hline ⊢
    exact rewritten_from hplace hstart hhere hline
  · simp only [besideBare, Range.isEmpty, hempty, decide_false, Bool.false_eq_true, if_false,
      List.singleton_append, rewritten, Edit.range, Edit.text, String.append_empty]

section

variable {whole : Range} {kept : Expr} (ctx : Context) (hstart : s.HasPlace whole.start)
  (hstop : s.HasPlace whole.stop) (hkept : kept.range.Proper s.HasPlace)
  (hbefore : whole.start ≤ kept.range.start) (hafter : kept.range.stop ≤ whole.stop)
include hstart hstop hkept hbefore hafter

/-- Where no parentheses are needed, what stands around the part goes. -/
theorem apply_keepOnly_bare (hbare : (ctx.isFree || kept.isAtomic) = true) :
    (s.apply (ctx.keepOnly whole kept)).map SourceText.text =
      .ok (s.before whole.start ++ s.extract kept.range ++ s.behind whole.stop) := by
  let before : Range := ⟨whole.start, kept.range.start⟩
  let after : Range := ⟨kept.range.stop, whole.stop⟩
  have hedits : ctx.keepOnly whole kept = besideBare before ++ (besideBare after ++ []) := by
    have hwrap : (!ctx.isFree && !kept.isAtomic) = false := by
      rw [← Bool.not_or, hbare]
      rfl
    simp [keepOnly, hwrap, before, after]
  have hbehind : Between Edit.range (fun e => e.range.Proper s.HasPlace) kept.range.start
      (besideBare after ++ []) whole.stop :=
    besideBare_append_line hkept.le hafter hkept.stop hstop (between_nil.mpr le_rfl)
  have hline : Between Edit.range (fun e => e.range.Proper s.HasPlace) Location.origin
      (besideBare before ++ (besideBare after ++ [])) whole.stop :=
    besideBare_append_line hstart.origin_le hbefore hstart hkept.start hbehind
  have hrest : s.rewritten kept.range.start (besideBare after ++ []) =
      s.extract kept.range ++ s.behind whole.stop :=
    rewritten_besideBare_append hkept.start hkept.le hafter hkept.stop (between_nil.mpr le_rfl)
  have hall : s.rewritten Location.origin (besideBare before ++ (besideBare after ++ [])) =
      s.before whole.start ++ s.rewritten kept.range.start (besideBare after ++ []) :=
    rewritten_besideBare_append s.hasPlace_origin hstart.origin_le hbefore hstart
      (admitted_of_proper_line hbehind)
  rw [hedits, apply_of_proper_line hline, hall, hrest, String.append_assoc]

/-- Where parentheses are needed, they take the place of what stands around the part. -/
theorem apply_keepOnly_wrapped (hwrapped : (ctx.isFree || kept.isAtomic) = false) :
    (s.apply (ctx.keepOnly whole kept)).map SourceText.text =
      .ok (s.before whole.start ++ ("(" ++ s.extract kept.range ++ ")") ++
        s.behind whole.stop) := by
  obtain ⟨opening, hopening, hopeningRange, hopeningText⟩ :
      ∃ e, besideWrapped ⟨whole.start, kept.range.start⟩ kept.range.start "(" = [e] ∧
        e.range = ⟨whole.start, kept.range.start⟩ ∧ e.text = "(" :=
    exists_besideWrapped "(" hbefore (.inr rfl)
  obtain ⟨closing, hclosing, hclosingRange, hclosingText⟩ :
      ∃ e, besideWrapped ⟨kept.range.stop, whole.stop⟩ kept.range.stop ")" = [e] ∧
        e.range = ⟨kept.range.stop, whole.stop⟩ ∧ e.text = ")" :=
    exists_besideWrapped ")" hafter (.inl rfl)
  have hedits : ctx.keepOnly whole kept = [opening, closing] := by
    have hwrap : (!ctx.isFree && !kept.isAtomic) = true := by
      rw [← Bool.not_or, hwrapped]
      rfl
    simp only [keepOnly, hwrap, if_true, hopening, hclosing]
    rfl
  have hfirst : s.Admits opening := by
    refine ⟨?_, ?_, ?_⟩ <;> rw [hopeningRange]
    · exact hbefore
    · exact hstart
    · exact hkept.start
  have hsecond : s.Admits closing := by
    refine ⟨?_, ?_, ?_⟩ <;> rw [hclosingRange]
    · exact hafter
    · exact hkept.stop
    · exact hstop
  have hline : Between Edit.range s.Admits Location.origin [opening, closing] whole.stop := by
    rw [between_cons, between_cons, between_nil, hopeningRange, hclosingRange]
    exact ⟨hstart.origin_le, hfirst, hkept.le, hsecond, le_rfl⟩
  -- the part has a character, so the parentheses are not inserted at one place
  have hapart : [opening, closing].Pairwise fun a b => Apart a.range.span b.range.span := by
    rw [List.pairwise_pair, hopeningRange, hclosingRange]
    exact apart_of_le hkept.le (hbefore.trans_lt (hkept.lt.trans_le hafter))
  rw [hedits, apply_of_line hline hapart]
  simp only [rewritten, hopeningRange, hclosingRange, hopeningText, hclosingText,
    String.append_assoc]
  rfl

end

end Context

/-- Shrinking a range of a text to an expression in it succeeds. The expression is left with its
own text, in parentheses exactly when the place is not free and the expression is not atomic, and
nothing changes before the range and behind it. -/
theorem applyEdits_keepOnly (text : String) (ctx : Context) {whole : Range} {kept : Expr}
    (hstart : (ofString text).HasPlace whole.start) (hstop : (ofString text).HasPlace whole.stop)
    (hkept : kept.range.Proper (ofString text).HasPlace)
    (hinside : whole.contains kept.range = true) :
    let s := ofString text
    s.before whole.start ++ s.extract whole ++ s.behind whole.stop = text ∧
      applyEdits text (ctx.keepOnly whole kept) =
        .ok (s.before whole.start ++
          (if ctx.isFree || kept.isAtomic then s.extract kept.range
            else "(" ++ s.extract kept.range ++ ")") ++
          s.behind whole.stop) := by
  obtain ⟨hbefore, hafter⟩ := Range.contains_iff.mp hinside
  have hle : whole.start ≤ whole.stop := hbefore.trans (hkept.le.trans hafter)
  constructor
  · have hwhole := before_append_extract hstart hstop hle
    rwa [text_ofString] at hwhole
  · cases hbare : ctx.isFree || kept.isAtomic with
    | true => exact Context.apply_keepOnly_bare ctx hstart hstop hkept hbefore hafter hbare
    | false => exact Context.apply_keepOnly_wrapped ctx hstart hstop hkept hbefore hafter hbare

/-- A piped argument that is kept where an operand is needed: nothing stands before it, so that one
parenthesis is inserted and the other one takes the place of the rest. -/
theorem applyEdits_keepOnly_piped : ∃ (ctx : Context) (kept : Expr),
    ctx.isFree = false ∧ kept.isAtomic = false ∧ kept.range = ⟨⟨1, 5⟩, ⟨1, 8⟩⟩ ∧
      applyEdits "é = f x |> identity\n" (ctx.keepOnly ⟨⟨1, 5⟩, ⟨1, 20⟩⟩ kept) =
        .ok "é = (f x)\n" := by
  let knowledge := ProjectIndex.empty.knowledge
  let ctx : Context :=
    ⟨⟨ofString "é = f x |> identity\n", Lookup.ofModule default knowledge, knowledge, []⟩, [], false⟩
  let kept : Expr := .app ⟨⟨1, 5⟩, ⟨1, 8⟩⟩ (.unit ⟨⟨1, 5⟩, ⟨1, 6⟩⟩) [.unit ⟨⟨1, 7⟩, ⟨1, 8⟩⟩]
  have hkept : kept.range.Proper (ofString "é = f x |> identity\n").HasPlace :=
    ⟨by decide, by decide, by decide⟩
  have happly := (applyEdits_keepOnly "é = f x |> identity\n" ctx (by decide) (by decide) hkept
    (show Range.contains ⟨⟨1, 5⟩, ⟨1, 20⟩⟩ kept.range = true by decide)).2
  exact ⟨ctx, kept, rfl, rfl, rfl, happly.trans (congrArg Except.ok (by decide +kernel))⟩

end Terse
