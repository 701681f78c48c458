import Terse.Proofs.Grammar.Extracting
import Terse.Proofs.Token.Gap

/-!
# What stands between parts

Between the operands of an operation stands its operator, between neighbouring elements of a list
a comma, and between an end of a list and the element next to it a bracket. Apart from this one
token there are only blanks and comments.
-/

namespace Terse

open Token (Kind)
open Item (token part commas)
open SourceText (ofString)

/-- The elements stand in the range as in a list: a bracket stands alone at each end, and a comma
between neighbours. -/
structure SourceText.Bracketed (s : SourceText) (r : Range) (items : List Expr) : Prop where
  commas : items.IsChain fun a b =>
    Kind.comma.AloneIn (s.extract ⟨a.range.stop, b.range.start⟩)
  opening : ∀ e, items.head? = some e →
    Kind.leftBracket.AloneIn (s.extract ⟨r.start, e.range.start⟩)
  closing : ∀ e, items.getLast? = some e →
    Kind.rightBracket.AloneIn (s.extract ⟨e.range.stop, r.stop⟩)

namespace Lexeme

variable {text : List Char} {ps : List Piece} {before own after : List Token}

/-- An expression starts and ends between lexemes. -/
theorem cutsAt_expr {e : Expr} (hplace : place Location.origin none ps = before ++ (own ++ after))
    (he : (Node.expr e).Stands own) :
    CutsAt ps before e.range.start ∧ CutsAt ps (before ++ own) e.range.stop := by
  rw [Expr.range_of_stands he]
  exact cutsAt_extent hplace he.ne_nil

/-- The operator stands alone between the operands, unless it is the minus sign, which is another
token where no operand stands before it. -/
theorem operator_alone {r : Range} {symbol : String} {left right : Expr}
    (hcut : cut text = (ps, none))
    (hplace : place Location.origin none ps = before ++ (own ++ after))
    (h : (Node.expr (.binary r symbol left right)).Stands own) (hsymbol : symbol ≠ "-") :
    (Kind.operator symbol).AloneIn
      ((SourceText.mk text).extract ⟨left.range.stop, right.range.start⟩) := by
  obtain ⟨lefts, rest, rfl, hleft, hrest⟩ := spelled_part.mp h.2
  obtain ⟨t, rights, rfl, ht, hright⟩ := spelled_token.mp hrest
  have hplaceLeft : place Location.origin none ps = before ++ (lefts ++ (t :: rights ++ after)) := by
    rw [hplace]
    simp
  have hplaceRight : place Location.origin none ps =
      (before ++ lefts ++ [t]) ++ (rights ++ after) := by
    rw [hplace]
    simp
  have hstop := (cutsAt_expr hplaceLeft hleft).2
  have hstart := (cutsAt_expr hplaceRight (spelled_part_singleton.mp hright)).1
  rw [← ht]
  exact aloneIn_extract hcut hstop hstart (by simp [ht, Kind.IsFixed, hsymbol])

/-- Elements with commas between them start and end between lexemes, and each comma stands alone
between its neighbours. -/
theorem elements_alone {items : List Expr} (hcut : cut text = (ps, none))
    (hplace : place Location.origin none ps = before ++ (own ++ after))
    (h : Spelled Node.Sits (commas (items.map ([part <| .expr ·]))) own) :
    (items.IsChain fun a b =>
        Kind.comma.AloneIn ((SourceText.mk text).extract ⟨a.range.stop, b.range.start⟩)) ∧
      (∀ e, items.head? = some e → CutsAt ps before e.range.start) ∧
        ∀ e, items.getLast? = some e → CutsAt ps (before ++ own) e.range.stop := by
  induction items generalizing before own with
  | nil => simp
  | cons e items ih =>
    cases items with
    | nil =>
      rw [List.map_singleton, Item.commas_singleton, spelled_part_singleton] at h
      have hcuts := cutsAt_expr hplace h
      refine ⟨.singleton _, ?_, ?_⟩
      · rintro _ ⟨⟩
        exact hcuts.1
      · rintro _ ⟨⟩
        exact hcuts.2
    | cons next items =>
      rw [List.map_cons, List.map_cons, Item.commas_cons_cons] at h
      obtain ⟨es, rest, rfl, he, hrest⟩ := spelled_append.mp h
      obtain ⟨t, others, rfl, ht, hothers⟩ := spelled_token.mp hrest
      have hplaceFirst : place Location.origin none ps =
          before ++ (es ++ (t :: others ++ after)) := by
        rw [hplace]
        simp
      have hplaceOthers : place Location.origin none ps =
          (before ++ es ++ [t]) ++ (others ++ after) := by
        rw [hplace]
        simp
      have hfirst := cutsAt_expr hplaceFirst (spelled_part_singleton.mp he)
      obtain ⟨hchain, hhead, hlast⟩ := ih hplaceOthers hothers
      -- between two elements the text is cut where the first ends and where the next starts
      have hcomma := aloneIn_extract hcut hfirst.2 (hhead next rfl)
        (by simp [ht, Kind.IsFixed])
      rw [ht] at hcomma
      refine ⟨List.isChain_cons_cons.mpr ⟨hcomma, hchain⟩, ?_, ?_⟩
      · rintro _ ⟨⟩
        exact hfirst.1
      · intro last hl
        rw [List.getLast?_cons_cons] at hl
        simpa using hlast last hl

theorem bracketed {r : Range} {items : List Expr} (hcut : cut text = (ps, none))
    (hplace : place Location.origin none ps = before ++ (own ++ after))
    (h : (Node.expr (.list r items)).Stands own) :
    (SourceText.mk text).Bracketed r items := by
  have hwhole := cutsAt_expr hplace h
  obtain ⟨opening, rest, rfl, hopening, hrest⟩ := spelled_token.mp h.2
  obtain ⟨inner, tail, rfl, hinner, htail⟩ := spelled_append.mp hrest
  obtain ⟨closing, _, rfl, hclosing, hnil⟩ := spelled_token.mp htail
  obtain rfl := spelled_nil.mp hnil
  have hplaceInner : place Location.origin none ps =
      (before ++ [opening]) ++ (inner ++ (closing :: after)) := by
    rw [hplace]
    simp
  obtain ⟨hchain, hhead, hlast⟩ := elements_alone hcut hplaceInner hinner
  constructor
  · exact hchain
  · intro e he
    have halone := aloneIn_extract hcut hwhole.1 (hhead e he) (by simp [hopening, Kind.IsFixed])
    rw [hopening] at halone
    exact halone
  · intro e he
    -- the list ends behind the closing bracket, and the last element in front of it
    have htokens : before ++ opening :: (inner ++ [closing]) =
        before ++ [opening] ++ inner ++ [closing] := by simp
    have hstop := htokens ▸ hwhole.2
    have halone := aloneIn_extract hcut (hlast e he) hstop (by simp [hclosing, Kind.IsFixed])
    rw [hclosing] at halone
    exact halone

end Lexeme

namespace ReadFrom

variable {text : String} {root x : Expr}

/-- The tokens of an expression in what is read stand together among those of the text. -/
theorem exists_place (h : ReadFrom text (.expr root)) (hx : x ∈ root.nodes) :
    ∃ ps before own after, Lexeme.cut text.toList = (ps, none) ∧
      Lexeme.place Location.origin none ps = before ++ (own ++ after) ∧
      (Node.expr x).Stands own := by
  obtain ⟨ts, hscan, hroot⟩ := h.standsIn
  obtain ⟨own, ⟨before, after, rfl⟩, hstands⟩ := hroot.of_mem_nodes hx
  obtain ⟨ps, hcut, hplace⟩ := Token.exists_of_scan hscan
  exact ⟨ps, before, own, after, hcut, by rw [hplace, List.append_assoc], hstands⟩

/-- Only the operator stands between the operands of an operation that is read. -/
theorem operator_alone {r : Range} {symbol : String} {left right : Expr}
    (h : ReadFrom text (.expr root)) (hx : .binary r symbol left right ∈ root.nodes)
    (hsymbol : symbol ≠ "-") :
    (Kind.operator symbol).AloneIn
      ((ofString text).extract ⟨left.range.stop, right.range.start⟩) := by
  obtain ⟨ps, before, own, after, hcut, hplace, hstands⟩ := h.exists_place hx
  exact Lexeme.operator_alone hcut hplace hstands hsymbol

theorem bracketed {r : Range} {items : List Expr} (h : ReadFrom text (.expr root))
    (hx : .list r items ∈ root.nodes) : (ofString text).Bracketed r items := by
  obtain ⟨ps, before, own, after, hcut, hplace, hstands⟩ := h.exists_place hx
  exact Lexeme.bracketed hcut hplace hstands

end ReadFrom

end Terse
