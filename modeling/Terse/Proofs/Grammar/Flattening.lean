import Terse.Proofs.Grammar.ModuleStanding

/-!
# Nothing is lost by reading

A tree that is read from a text flattens back to the tokens of the text: the reader loses none of
them, reads none twice, and keeps their order.
-/

namespace Terse

open Token (Kind)

/-- The tokens are those that a tree says must stand in its text, with some that it says may. -/
inductive Mark.Spell : List Mark → List Kind → Prop where
  | nil : Spell [] []
  | must {k : Kind} {ms : List Mark} {ks : List Kind} (h : Spell ms ks) :
      Spell (.must k :: ms) (k :: ks)
  | absent {k : Kind} {ms : List Mark} {ks : List Kind} (h : Spell ms ks) :
      Spell (.may k :: ms) ks
  | present {k : Kind} {ms : List Mark} {ks : List Kind} (h : Spell ms ks) :
      Spell (.may k :: ms) (k :: ks)

theorem Mark.Spell.append {ms ns : List Mark} {ks ls : List Kind} (h : Spell ms ks)
    (h' : Spell ns ls) : Spell (ms ++ ns) (ks ++ ls) := by
  induction h with
  | nil => exact h'
  | must _ ih => exact .must ih
  | absent _ ih => exact .absent ih
  | present _ ih => exact .present ih

/-- What is written with tokens flattens to them. -/
theorem Spelled.spell {ok : Node → List Token → Prop} {items : List Item} {ts : List Token}
    (h : Spelled ok items ts) :
    Mark.Spell (items.flatMap Item.marks) (ts.map (·.kind)) := by
  induction h with
  | nil => exact .nil
  | token hk _ ih =>
    subst hk
    exact .must ih
  | absent _ ih => exact .absent ih
  | present hk _ ih =>
    subst hk
    exact .present ih
  | part _ _ _ ihown ih =>
    rw [List.flatMap_cons, List.map_append, Item.marks, Node.marks_eq]
    exact ihown.append ih

theorem Node.Written.spell {ok : Node → List Token → Prop} {n : Node} {ts : List Token}
    (h : n.Written ok ts) : Mark.Spell n.marks (ts.map (·.kind)) := by
  rw [n.marks_eq]
  exact h.2.spell

/-- An expression that a text is read to flattens to the tokens of the text, and its range is the
one from the start of the first token to the end of the last one. -/
theorem Expr.parse_flattens {text : String} {e : Expr} (h : Expr.parse text = .ok e) :
    ∃ first last ts, Token.scan text.toList = .ok ts ∧
      Mark.Spell (Node.expr e).marks (ts.map (·.kind)) ∧
      ts.head? = some first ∧ ts.getLast? = some last ∧
      e.range = ⟨first.range.start, last.range.stop⟩ := by
  rcases Expr.parse_stands h with ⟨ts, hscan, hstands⟩
  have hne := hstands.ne_nil
  refine ⟨ts.head hne, ts.getLast hne, ts, hscan, hstands.spell, List.head?_eq_some_head hne,
    List.getLast?_eq_some_getLast hne, ?_⟩
  rw [Expr.range_of_stands hstands, extent, List.head?_eq_some_head hne,
    List.getLast?_eq_some_getLast hne]
  rfl

/-- A signed zero in a pattern comes back without its sign. -/
theorem Expr.parse_flattens_signed_zero :
    ∃ e first last ts, Expr.parse "\\-0 -> f -x" = .ok e ∧
      Token.scan "\\-0 -> f -x".toList = .ok ts ∧
      Mark.Spell (Node.expr e).marks (ts.map (·.kind)) ∧
      ts.head? = some first ∧ ts.getLast? = some last ∧
      e.range = ⟨first.range.start, last.range.stop⟩ := by
  have hok : (Expr.parse "\\-0 -> f -x").isOk = true := by decide +kernel
  rcases exists_ok_of_isOk hok with ⟨e, he⟩
  rcases Expr.parse_flattens he with ⟨first, last, ts, h⟩
  exact ⟨e, first, last, ts, he, h⟩

end Terse
