import Terse.Proofs.Grammar.ExprReadingBack
import Terse.Proofs.Grammar.Ranges
import Terse.Proofs.Token.Excerpt
import Terse.Proofs.Tree.Nesting

/-!
# Expressions are read from their own text

The text in the range of an expression can be taken out and read on its own: it gives the same
expression in other places, whatever stood around it. A case is the exception, since its branches
are told apart by the columns that they start in.
-/

namespace Terse

open Token (Kind)
open Item (token part commas)

/-! ## Parts -/

def Expr.isCase : Expr → Bool
  | .case _ _ _ => true
  | _ => false

/-- Only an expression has parts that are expressions. -/
theorem Node.mem_children_of_part {n : Node} {c : Expr} (h : part (.expr c) ∈ n.items) :
    ∃ e, n = .expr e ∧ c ∈ e.children := by
  cases n with
  | expr e => exact ⟨e, rfl, Expr.part_mem_items.mp h⟩
  | name | field => simp [items] at h
  | pattern p =>
    exfalso
    cases p with
    | literal _ value =>
      simp only [items, Pattern.items, Literal.items] at h
      split at h
      · simp at h
      · split at h <;> simp at h
    | _ => simp [items, Pattern.items, part_mem_commas_iff] at h

namespace Node

theorem StandsIn.of_mem_nodes {root x : Expr} {ts : List Token}
    (h : (Node.expr root).StandsIn ts) (hx : x ∈ root.nodes) : (Node.expr x).StandsIn ts := by
  rw [Expr.nodes_eq, List.mem_cons] at hx
  rcases hx with rfl | hx
  · exact h
  · rcases List.mem_flatMap.mp hx with ⟨c, hc, hx⟩
    have hlt := Expr.sizeOf_lt_of_mem_children hc
    rcases h with ⟨own, hown, hstands⟩
    have hpart := StandsIn.of_spelled hstands.2 (Expr.part_mem_items.mpr hc)
    exact (hpart.of_mem_nodes hx).mono hown
termination_by sizeOf root

/-- None of the expressions in the node is a case. -/
def NoCase (n : Node) : Prop := ∀ e, n = .expr e → ∀ y ∈ e.nodes, y.isCase = false

theorem NoCase.of_part {n p : Node} (h : n.NoCase) (hp : part p ∈ n.items) : p.NoCase := by
  rintro c rfl y hy
  rcases mem_children_of_part hp with ⟨e, rfl, hc⟩
  exact h e rfl y (Expr.mem_nodes_of_child hc hy)

/-- Without a case it does not matter where the tokens stand. -/
theorem Stands.spelledBy {n : Node} {ts : List Token} (h : n.Stands ts) (hcase : n.NoCase) :
    n.SpelledBy ts := by
  induction n using induction_on_parts generalizing ts with
  | step n ih =>
    refine ⟨⟨h.1.1, ?_⟩, h.2.mono fun p hp own hown => ih p hp hown (hcase.of_part hp)⟩
    rintro r scrutinee branches rfl
    exact absurd (hcase _ rfl _ (Expr.mem_nodes_self _)) (by simp [Expr.isCase])

end Node

/-! ## First and last tokens -/

theorem Literal.kind_ne_minus (l : Literal) : l.kind ≠ .minus := by
  cases l <;> simp [Literal.kind]

theorem QualifiedName.kind_ne_minus (q : QualifiedName) : q.kind ≠ .minus := by
  unfold QualifiedName.kind
  split <;> simp

/-- The last item of an expression is a part, or a token of its own that is no minus sign. -/
theorem Expr.exists_last_item (e : Expr) : ∃ init i, e.items = init ++ [i] ∧
    ((∃ k, i = token k ∧ k ≠ .minus) ∨ (∃ c, i = part (.expr c)) ∨ ∃ f, i = part (.field f)) := by
  cases e with
  | unit => exact ⟨[token .leftParen], _, rfl, .inl ⟨_, rfl, by simp⟩⟩
  | literal _ value => exact ⟨[], _, rfl, .inl ⟨_, rfl, value.kind_ne_minus⟩⟩
  | var _ name => exact ⟨[], _, rfl, .inl ⟨_, rfl, name.kind_ne_minus⟩⟩
  | operatorFn _ symbol =>
    exact ⟨[token .leftParen, token (.operator symbol)], _, rfl, .inl ⟨_, rfl, by simp⟩⟩
  | accessor => exact ⟨[], _, rfl, .inl ⟨_, rfl, by simp⟩⟩
  | app _ fn args =>
    -- trees include calls without arguments and cases without branches, though none are read
    rcases List.eq_nil_or_concat args with rfl | ⟨init, last, rfl⟩
    · exact ⟨[], _, rfl, .inr (.inl ⟨fn, rfl⟩)⟩
    · exact ⟨part (.expr fn) :: init.map (part ∘ .expr), part (.expr last), by simp [Expr.items],
        .inr (.inl ⟨last, rfl⟩)⟩
  | binary _ symbol left right =>
    exact ⟨[part (.expr left), token (.operator symbol)], _, rfl, .inr (.inl ⟨right, rfl⟩)⟩
  | negate _ inner => exact ⟨[token .minus], _, rfl, .inr (.inl ⟨inner, rfl⟩)⟩
  | paren _ inner =>
    exact ⟨[token .leftParen, part (.expr inner)], _, rfl, .inl ⟨_, rfl, by simp⟩⟩
  | list _ items =>
    exact ⟨token .leftBracket :: commas (items.map ([part <| .expr ·])), _, rfl,
      .inl ⟨.rightBracket, rfl, by simp⟩⟩
  | tuple _ items =>
    exact ⟨token .leftParen :: commas (items.map ([part <| .expr ·])), _, rfl,
      .inl ⟨.rightParen, rfl, by simp⟩⟩
  | record _ setters =>
    exact ⟨token .leftBrace :: commas (setters.map Setter.items), _, rfl,
      .inl ⟨.rightBrace, rfl, by simp⟩⟩
  | update _ base setters =>
    exact ⟨token .leftBrace :: part (.name base) :: token .pipe ::
      commas (setters.map Setter.items), _, rfl, .inl ⟨.rightBrace, rfl, by simp⟩⟩
  | access _ owner field => exact ⟨[part (.expr owner)], _, rfl, .inr (.inr ⟨field, rfl⟩)⟩
  | cond _ condition thenBranch elseBranch =>
    exact ⟨[token (.keyword .ifWord), part (.expr condition), token (.keyword .thenWord),
      part (.expr thenBranch), token (.keyword .elseWord)], _, rfl, .inr (.inl ⟨elseBranch, rfl⟩)⟩
  | case _ scrutinee branches =>
    rcases List.eq_nil_or_concat branches with rfl | ⟨init, last, rfl⟩
    · exact ⟨[token (.keyword .caseWord), part (.expr scrutinee)], _, rfl,
        .inl ⟨.keyword .ofWord, rfl, by simp⟩⟩
    · exact ⟨token (.keyword .caseWord) :: part (.expr scrutinee) :: token (.keyword .ofWord) ::
        (init.flatMap Branch.items ++ [part (.pattern last.pattern), token .arrow]),
        part (.expr last.body), by simp [Expr.items, Branch.items], .inr (.inl ⟨_, rfl⟩)⟩
  | lambda _ params body =>
    exact ⟨token .backslash :: (params.map (part ∘ .pattern) ++ [token .arrow]),
      part (.expr body), by simp [Expr.items], .inr (.inl ⟨body, rfl⟩)⟩

theorem expr_getLast {e : Expr} {own : List Token} (h : (Node.expr e).SpelledBy own) {t : Token}
    (ht : own.getLast? = some t) : t.kind ≠ .minus := by
  rcases e.exists_last_item with ⟨init, i, hitems, hi⟩
  have hspelled : SpelledBy e.items own := h.2
  rw [hitems] at hspelled
  rcases spelled_append.mp hspelled with ⟨front, back, rfl, -, hback⟩
  have hlast : back ≠ [] → back.getLast? = some t := by
    intro hne
    rwa [List.getLast?_append, List.getLast?_eq_some_getLast hne, Option.some_or,
      ← List.getLast?_eq_some_getLast hne] at ht
  rcases hi with ⟨k, rfl, hk⟩ | ⟨c, rfl⟩ | ⟨f, rfl⟩
  · rcases spelled_token.mp hback with ⟨u, _, rfl, rfl, hnil⟩
    obtain rfl := spelled_nil.mp hnil
    obtain rfl : u = t := by simpa using hlast (by simp)
    exact hk
  -- the last item is a part, which is spelled with at least one token
  · have hc := spelled_part_singleton.mp hback
    have hlt : sizeOf c < sizeOf e :=
      Expr.sizeOf_lt_of_mem_children (Expr.part_mem_items.mp (by simp [hitems]))
    exact expr_getLast hc (hlast hc.ne_nil)
  · have hf := spelled_part_singleton.mp hback
    rcases spelled_token.mp hf.2 with ⟨u, _, rfl, hu, hnil⟩
    obtain rfl := spelled_nil.mp hnil
    obtain rfl : u = t := by simpa using hlast (by simp)
    simp [hu]
termination_by sizeOf e

theorem expr_head {e : Expr} {own : List Token} (h : (Node.expr e).SpelledBy own) (hne : own ≠ []) :
    (∀ f, (own.head hne).kind ≠ .dotField f) ∧
      ∀ symbol, (own.head hne).kind ≠ .operator symbol := by
  have hstarts := Grammar.expr_starts h []
  rw [List.append_nil] at hstarts
  rcases List.exists_cons_of_ne_nil hne with ⟨t, own, rfl⟩
  refine ⟨fun f hf => ?_, fun symbol hs => ?_⟩
  · have := Grammar.not_nextIs_of_startsExpr (k := .dotField f) hstarts rfl
    simp_all [Grammar.nextIs, Grammar.nextKind]
  · have := Grammar.not_nextIs_of_startsExpr (k := .operator symbol) hstarts rfl
    simp_all [Grammar.nextIs, Grammar.nextKind]

/-! ## Reading from the expression's own text -/

/-- Tokens of a text do not stand left of its first column. -/
theorem Token.columned_scan {text : List Char} {ts : List Token} (h : Token.scan text = .ok ts) :
    Grammar.Columned ts := by
  intro t ht
  have hplace := ((Token.tidy_scan h).sound t ht).proper.start
  unfold SourceText.HasPlace SourceText.index? at hplace
  split at hplace
  · cases hplace
  · omega

/-- A text whose tokens spell an expression without a case is read to it. -/
theorem Expr.parse_of_spelledBy {text : String} {ts : List Token} {x : Expr}
    (hscan : Token.scan text.toList = .ok ts) (h : (Node.expr x).SpelledBy ts) :
    ∃ e, Expr.parse text = .ok e ∧ e.unplaced = x.unplaced := by
  have hfuel : 8 * ts.length + 3 ≤ Grammar.fuelFor ts := by
    unfold Grammar.fuelFor
    omega
  have hends : Grammar.Columned [] ∧ Grammar.EndsExpr [] := by
    simp [Grammar.Columned, Grammar.EndsExpr, Grammar.EndsOperand, Grammar.EndsAtom,
      Grammar.startsAtom, Grammar.nextIs, Grammar.nextKind]
  rcases (Grammar.expr_readsBack h (Token.columned_scan hscan)).expression _ hfuel [] hends with
    ⟨e, hread, he⟩
  rw [List.append_nil] at hread
  have htidy := Token.tidy_scan hscan
  rcases Grammar.readExpression_covers 0 htidy hread with ⟨own, hown, hstands, -⟩
  rw [List.append_nil] at hown
  subst hown
  have htokens : Grammar.tokens text.toList = .ok ts := by rw [Grammar.tokens, hscan]
  -- every token starts before the end of the expression
  have hend : (ts.find? fun t => e.range.stop ≤ t.range.start) = none := by
    refine List.find?_eq_none.mpr fun t ht => ?_
    rw [Expr.range_of_stands hstands, decide_eq_true_eq, not_le]
    exact (htidy.sound t ht).proper.lt.trans_le (htidy.le_stop ht)
  refine ⟨e, ?_, he⟩
  refine bind_ok_iff.mpr ⟨_, htokens, bind_ok_iff.mpr ⟨_, hread, ?_⟩⟩
  dsimp only
  rw [hend]
  rfl

/-- The text of an expression without a case, taken out of the text that the expression was read
from, is read to the same expression. -/
theorem ReadFrom.parse_extract {text : String} {root x : Expr} (h : ReadFrom text (.expr root))
    (hx : x ∈ root.nodes)
    (hcase : ∀ y ∈ x.nodes, y.isCase = false) :
    ∃ e, Expr.parse ((SourceText.ofString text).extract x.range) = .ok e ∧
      e.unplaced = x.unplaced := by
  rcases h.standsIn with ⟨ts, hscan, hroot⟩
  rcases hroot.of_mem_nodes hx with ⟨own, hown, hstands⟩
  have hspelled : (Node.expr x).SpelledBy own := hstands.spelledBy (by rintro _ ⟨⟩; exact hcase)
  have hne := hstands.ne_nil
  have hhead := expr_head hspelled hne
  rcases Token.scan_extract hscan hown hne hhead.1 (hhead.2 "-")
    (expr_getLast hspelled (List.getLast?_eq_some_getLast hne)) with ⟨us, hus, hkinds⟩
  rw [Expr.range_of_stands hstands]
  exact Expr.parse_of_spelledBy hus ⟨hspelled.1, hspelled.2.of_kinds hkinds⟩

/-- An argument with a sign keeps it, taken out of the record that a field is read from. -/
theorem ReadFrom.parse_extract_negation : ∃ root x e, ReadFrom "(f -b).c" (.expr root) ∧
    x ∈ root.nodes ∧ (SourceText.ofString "(f -b).c").extract x.range = "f -b" ∧
      Expr.parse "f -b" = .ok e ∧ e.unplaced = x.unplaced := by
  have hread : (Expr.parse "(f -b).c").toOption.any (fun root => root.nodes.any fun x =>
      (SourceText.ofString "(f -b).c").extract x.range == "f -b" &&
        x.nodes.all fun y => !y.isCase) = true := by decide +kernel
  rcases exists_ok_of_any hread with ⟨root, hparse, hany⟩
  rcases List.any_eq_true.mp hany with ⟨x, hx, htest⟩
  rw [Bool.and_eq_true, beq_iff_eq, List.all_eq_true] at htest
  rcases htest with ⟨htext, hcase⟩
  have hroot : ReadFrom "(f -b).c" (.expr root) := .expr hparse
  rcases hroot.parse_extract hx (fun y hy => by simpa using hcase y hy) with ⟨e, hread, he⟩
  rw [htext] at hread
  exact ⟨root, x, e, hroot, hx, htext, hread, he⟩

end Terse
