import Terse.Proofs.Grammar.Precedence
import Terse.Proofs.Grammar.Ranges
import Terse.Proofs.Rule.IntegerVerdicts
import Terse.Proofs.Token.Integer

/-!
# Integers are exact

An integer of a text is either read as the number that it spells or refused, so no tree that is read
from a text has a literal without a place in 64 bits. The opposite of such a literal has a place
too, under any number of minus signs.
-/

namespace Terse

open Token (Kind)

/-- Neither a module nor an expression can be read from the text: there is a fault behind
`before`. -/
structure FaultAt (text : String) (before : List Char) (fault : Lexeme.Fault) : Prop where
  module : Module.parse text = .error (.fault (Location.origin.afterAll before) fault)
  expr : Expr.parse text = .error (.fault (Location.origin.afterAll before) fault)

theorem faultAt_of_scan {text : String} {before : List Char} {fault : Lexeme.Fault}
    (h : Token.scan text.toList = .error (Location.origin.afterAll before, fault)) :
    FaultAt text before fault := by
  have htokens : Grammar.tokens text.toList =
      .error (.fault (Location.origin.afterAll before) fault) := by rw [Grammar.tokens, h]
  exact ⟨by rw [Module.parse, htokens]; rfl, by rw [Expr.parse, htokens]; rfl⟩

/-! ## Literals and their tokens -/

/-- A token that the items call for is among the tokens. -/
theorem Spelled.exists_of_token {ok : Node → List Token → Prop} {items : List Item}
    {ts : List Token} {k : Kind} (h : Spelled ok items ts) (hk : Item.token k ∈ items) :
    ∃ t ∈ ts, t.kind = k := by
  rcases List.append_of_mem hk with ⟨front, back, rfl⟩
  rcases spelled_append.mp h with ⟨own, rest, rfl, -, hrest⟩
  rcases spelled_token.mp hrest with ⟨t, later, rfl, ht, -⟩
  exact ⟨t, List.mem_append_right own List.mem_cons_self, ht⟩

/-- An integer in a pattern is written without its sign. -/
theorem Literal.exists_token_of_int? {l : Literal} {n : Int} (h : l.int? = some n) (hn : n ≠ 0)
    (hhex : ∀ k, l = .hex k → 0 ≤ k) :
    Item.token (.int n.natAbs) ∈ l.items ∨ Item.token (.hex n.natAbs) ∈ l.items := by
  cases l with
  | int k =>
    cases h
    rcases Int.lt_or_lt_of_ne hn with hneg | hpos
    · left
      simp [items, isNegative, hneg, negate, kind]
      omega
    · left
      have : ¬n < 0 := by omega
      simp [items, isNegative, this, hn, kind]
      omega
  | hex k =>
    cases h
    -- no minus goes before a hexadecimal number
    have hpos := hhex n rfl
    right
    have : ¬n < 0 := by omega
    simp [items, isNegative, this, kind]
    omega
  | _ => cases h

/-! ## Integers in trees -/

/-- A node that is written with an integer is written with a small one. -/
theorem Node.StandsIn.int_le {node : Node} {n : Nat} {text : List Char} {ts : List Token}
    (h : node.StandsIn ts) (hscan : Token.scan text = .ok ts)
    (hitems : Item.token (.int n) ∈ node.items ∨ Item.token (.hex n) ∈ node.items) :
    n ≤ 2 ^ 63 - 1 := by
  rcases h with ⟨own, hown, hstands⟩
  rcases hitems with hitems | hitems
  · rcases hstands.2.exists_of_token hitems with ⟨t, ht, hkind⟩
    exact (Token.exists_spellsInteger hscan (hown.subset ht) (.inl hkind)).1
  · rcases hstands.2.exists_of_token hitems with ⟨t, ht, hkind⟩
    exact (Token.exists_spellsInteger hscan (hown.subset ht) (.inr hkind)).1

namespace ReadFrom

variable {text : String} {root : Node} {r : Range} {l : Literal} {e : Expr} {n : Int}

/-- An integer literal in an expression has no sign and is small. -/
theorem literal_bounds (h : ReadFrom text root) (hn : Node.Under root (.expr (.literal r l)))
    (hl : l.int? = some n) : 0 ≤ n ∧ n ≤ 2 ^ 63 - 1 := by
  have hsign : l.isNegative = false := h.apt hn
  have hpos : 0 ≤ n := by
    cases l <;> cases hl <;> simpa [Literal.isNegative] using hsign
  have hitems : Item.token (.int n.toNat) ∈ (Node.expr (.literal r l)).items ∨
      Item.token (.hex n.toNat) ∈ (Node.expr (.literal r l)).items := by
    cases l <;> cases hl <;> simp [Node.items, Expr.items, Literal.kind]
  rcases h.standsIn with ⟨ts, hscan, hroot⟩
  have hle := (hroot.of_under hn).int_le hscan hitems
  omega

/-- An integer literal in a pattern may have a sign, and is small without it. -/
theorem pattern_bounds (h : ReadFrom text root) (hn : Node.Under root (.pattern (.literal r l)))
    (hl : l.int? = some n) : n.natAbs ≤ 2 ^ 63 - 1 := by
  by_cases hzero : n = 0
  · subst hzero
    decide
  have hapt : ∀ k, l = .hex k → 0 ≤ k := by
    rintro k rfl
    exact h.apt hn
  have hitems := Literal.exists_token_of_int? hl hzero hapt
  rcases h.standsIn with ⟨ts, hscan, hroot⟩
  exact (hroot.of_under hn).int_le hscan hitems

/-! ## Integer expressions -/

theorem natAbs_le_of_isInteger (h : ReadFrom text root) (hn : Node.Under root (.expr e))
    (he : e.IsInteger n) : n.natAbs ≤ 2 ^ 63 - 1 := by
  induction he with
  | literal hl =>
    have := h.literal_bounds hn hl
    omega
  | paren _ ih | negate _ ih =>
    have hle := ih (hn.part (by simp [Node.items, Expr.items]))
    omega

/-- No integer expression is the least integer, which has no opposite. -/
theorem negatedInt?_of_isInteger (h : ReadFrom text root) (hn : Node.Under root (.expr e))
    (he : e.IsInteger n) : Expr.negatedInt? n = some (-n) := by
  have hle := h.natAbs_le_of_isInteger hn he
  have hleast : n ≠ Expr.leastInt := by
    rintro rfl
    revert hle
    decide
  rw [Expr.negatedInt?, if_neg hleast]

/-- The integer of an expression is known when the expression is one, and only then. -/
theorem int?_eq_some_iff (h : ReadFrom text root) (hn : Node.Under root (.expr e)) :
    e.int? = some n ↔ e.IsInteger n := by
  refine ⟨Expr.isInteger_of_int?, fun he => ?_⟩
  induction he with
  | literal hl => exact hl
  | paren _ ih => exact ih (hn.part (by simp [Node.items, Expr.items]))
  | @negate r inner k hinner ih =>
    have hunder : Node.Under root (.expr inner) := hn.part (by simp [Node.items, Expr.items])
    rw [Expr.int?, ih hunder]
    exact h.negatedInt?_of_isInteger hunder hinner

end ReadFrom

/-- Digits that are read as an integer are the number that they spell, in base ten or behind the
mark of base sixteen, if that is less than `2 ^ 63`; otherwise the text is refused there. No other
tokens are integers. So integer literals are small, in patterns with either sign, and what an
expression is known as is the integer that it spells, whatever signs and parentheses it has. -/
theorem integers_exact (text : String) :
    (∀ {before digits behind : List Char} {attached : Option Kind},
      CutAt text.toList before attached (digits ++ behind) →
      Numeral.IsNumeral 10 digits → EndsInteger digits behind →
      if Numeral.spelled 10 digits ≤ 2 ^ 63 - 1 then
        TokenAt text.toList before digits behind (.int (Numeral.spelled 10 digits))
      else FaultAt text before (.invalidNumber (String.ofList digits))) ∧
    (∀ {before digits behind : List Char} {attached : Option Kind} {x : Char},
      x = 'x' ∨ x = 'X' → CutAt text.toList before attached ('0' :: x :: (digits ++ behind)) →
      (∀ c ∈ digits, Letter.isWordChar c) → Lexeme.EndsWord behind →
      if Numeral.IsNumeral 16 digits ∧ Numeral.spelled 16 digits ≤ 2 ^ 63 - 1 then
        TokenAt text.toList before ('0' :: x :: digits) behind (.hex (Numeral.spelled 16 digits))
      else FaultAt text before (.invalidNumber ("0x" ++ String.ofList digits))) ∧
    (∀ {ts : List Token} {t : Token} {n : Nat}, Token.scan text.toList = .ok ts → t ∈ ts →
      t.kind = .int n ∨ t.kind = .hex n →
      IsInt64 n ∧ IsInt64 (-n) ∧ ∃ before attached written behind,
        CutAt text.toList before attached (written ++ behind) ∧
        SpellsInteger t.kind written behind ∧
        t.range = ⟨Location.origin.afterAll before, Location.origin.afterAll (before ++ written)⟩) ∧
    (∀ {root : Node} {r : Range} {l : Literal} {n : Int}, ReadFrom text root → l.int? = some n →
      (Node.Under root (.expr (.literal r l)) → 0 ≤ n ∧ n ≤ 2 ^ 63 - 1) ∧
      (Node.Under root (.pattern (.literal r l)) → -(2 ^ 63 - 1) ≤ n ∧ n ≤ 2 ^ 63 - 1)) ∧
    ∀ {root : Node} {e : Expr} {n : Int}, ReadFrom text root → Node.Under root (.expr e) →
      (e.int? = some n ↔ e.IsInteger n) ∧ (e.IsInteger n → Expr.negatedInt? n = some (-n)) := by
  refine ⟨?_, ?_, ?_, ?_, ?_⟩
  · intro before digits behind attached hcut hdigits hbehind
    have hread := hcut.int hdigits hbehind
    split
    · rename_i hle
      rwa [if_pos hle] at hread
    · rename_i hle
      rw [if_neg hle] at hread
      exact faultAt_of_scan hread
  · intro before digits behind attached x hx hcut hdigits hbehind
    have hread := CutAt.hex hx hcut hdigits hbehind
    split
    · rename_i hsmall
      rwa [if_pos hsmall] at hread
    · rename_i hsmall
      rw [if_neg hsmall] at hread
      exact faultAt_of_scan hread
  · intro ts t n hscan ht hkind
    rcases Token.exists_spellsInteger hscan ht hkind with ⟨hle, hplace⟩
    refine ⟨?_, ?_, hplace⟩ <;> unfold IsInt64 <;> omega
  · intro root r l n h hl
    refine ⟨fun hn => h.literal_bounds hn hl, fun hn => ?_⟩
    have := h.pattern_bounds hn hl
    omega
  · intro root e n h hn
    exact ⟨h.int?_eq_some_iff hn, h.negatedInt?_of_isInteger hn⟩

/-- An integer literal under a minus sign and in parentheses. -/
def isOpposite (n : Int) : Expr → Bool
  | .negate _ (.paren _ (.literal _ l)) => l.int? == some n
  | _ => false

theorem isInteger_of_isOpposite {n : Int} {e : Expr} (h : isOpposite n e = true) :
    e.IsInteger (-n) := by
  unfold isOpposite at h
  split at h
  · exact .negate (.paren (.literal (eq_of_beq h)))
  · cases h

/-- The greatest integer is read, and so is its opposite; the next one is refused. -/
theorem integers_exact_greatest :
    TokenAt "-(9223372036854775807)".toList "-(".toList "9223372036854775807".toList ")".toList
      (.int 9223372036854775807) ∧
    (∃ e, Expr.parse "-(9223372036854775807)" = .ok e ∧ e.int? = some (-9223372036854775807) ∧
      Expr.negatedInt? (-9223372036854775807) = some 9223372036854775807) ∧
    FaultAt "0x8000000000000000" [] (.invalidNumber "0x8000000000000000") := by
  refine ⟨?_, ?_, ?_⟩
  · have hminus : Lexeme.next none '-' "(9223372036854775807)".toList =
        .ok (.token .minus, 0) := by decide +kernel
    have hparen : Lexeme.next (some .minus) '(' "9223372036854775807)".toList =
        .ok (.token .leftParen, 0) := by decide +kernel
    have hcut : CutAt "-(9223372036854775807)".toList "-(".toList (some .leftParen)
        ("9223372036854775807".toList ++ ")".toList) :=
      (CutAt.start.next hminus).next hparen
    have hends : EndsInteger "9223372036854775807".toList ")".toList :=
      ⟨⟨by simp, by simp, by simp⟩, by simp⟩
    exact (integers_exact _).1 hcut (by decide +kernel) hends
  · have hread : (Expr.parse "-(9223372036854775807)").toOption.any
        (isOpposite 9223372036854775807) = true := by decide +kernel
    rcases exists_ok_of_any hread with ⟨e, hparse, hopposite⟩
    have hinteger := isInteger_of_isOpposite hopposite
    rcases (integers_exact _).2.2.2.2 (.expr hparse) .root with ⟨hint, hnegated⟩
    exact ⟨e, hparse, hint.mpr hinteger, hnegated hinteger⟩
  · have hcut : CutAt "0x8000000000000000".toList [] none
        ('0' :: 'x' :: ("8000000000000000".toList ++ [])) := .start
    have hword : ∀ c ∈ "8000000000000000".toList, Letter.isWordChar c :=
      List.all_eq_true.mp (by decide +kernel)
    exact (integers_exact _).2.1 (.inl rfl) hcut hword Lexeme.endsWord_nil

end Terse
