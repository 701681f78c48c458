import Terse.Proofs.Lint.Analysis
import Terse.Proofs.Number.Rounding

/-!
# Comparisons of integers

The rules for comparisons know the result of any comparison of two integer literals, in any
parentheses and under any number of minus signs. They compare the literals as doubles, so the
result is that of the integers rounded to 53 binary digits. It is the result for the integers
themselves unless these are different and are rounded to the same number.
-/

namespace Terse

/-- The integer has a place in 64 bits. -/
def IsInt64 (n : Int) : Prop := -2 ^ 63 ≤ n ∧ n < 2 ^ 63

instance (n : Int) : Decidable (IsInt64 n) := inferInstanceAs (Decidable (_ ∧ _))

theorem IsInt64.log2_le {n : Int} (h : IsInt64 n) : n.natAbs.log2 ≤ 1022 := by
  rcases Nat.eq_zero_or_pos n.natAbs with hn | hn
  · rw [hn]
    decide
  · have hlt : n.natAbs < 2 ^ 64 := by
      rcases h with ⟨hle, hlt⟩
      omega
    have hlog := (Nat.log2_lt (Nat.ne_of_gt hn)).mpr hlt
    omega

namespace Double

variable {a b : Int}

theorem rank_ofInt_neg (n : Int) : (ofInt (-n)).rank = -(ofInt n).rank := by
  rcases Int.lt_trichotomy n 0 with hn | rfl | hn
  · simp [ofInt, rank, hn, Int.not_lt.mpr (Int.le_of_lt hn)]
  · rfl
  · simp [ofInt, rank, hn, Int.not_lt.mpr (Int.le_of_lt hn)]

/-- Two integers are the same double if they are rounded to the same number. -/
theorem rank_ofInt_eq_iff (ha : IsInt64 a) (hb : IsInt64 b) :
    (ofInt a).rank = (ofInt b).rank ↔ roundedInt a = roundedInt b := by
  rw [Int.le_antisymm_iff, Int.le_antisymm_iff, rank_ofInt_le_iff ha.log2_le hb.log2_le,
    rank_ofInt_le_iff hb.log2_le ha.log2_le]

theorem rank_ofInt_lt_iff (ha : IsInt64 a) (hb : IsInt64 b) :
    (ofInt a).rank < (ofInt b).rank ↔ roundedInt a < roundedInt b := by
  rw [← Int.not_le, ← Int.not_le, rank_ofInt_le_iff hb.log2_le ha.log2_le]

/-- An integer below `2 ^ 53` is the only one that is rounded to it. -/
theorem eq_of_roundedInt_eq (ha : a.natAbs < 2 ^ 53) (h : roundedInt a = roundedInt b) :
    a = b := by
  have hkept : roundedInt a = a := roundedInt_eq_self (Nat.le_of_lt ha)
  rcases Nat.le_total b.natAbs (2 ^ 53) with hb | hb
  · rw [← hkept, h, roundedInt_eq_self hb]
  · have hlimit : roundedInt (2 ^ 53) = 2 ^ 53 := roundedInt_eq_self (by decide)
    have hlimit' : roundedInt (-2 ^ 53) = -2 ^ 53 := roundedInt_eq_self (by decide)
    rcases lt_or_ge b 0 with hneg | hpos
    · have := roundedInt_mono (a := b) (b := -2 ^ 53) (by omega)
      omega
    · have := roundedInt_mono (a := 2 ^ 53) (b := b) (by omega)
      omega

end Double

/-! ## Integer expressions -/

namespace Expr

/-- The expression is an integer literal, in any parentheses and under any number of minus
signs. -/
inductive IsInteger : Expr → Int → Prop where
  | literal {r : Range} {l : Literal} {n : Int} (h : l.int? = some n) : IsInteger (.literal r l) n
  | paren {r : Range} {inner : Expr} {n : Int} (h : IsInteger inner n) :
    IsInteger (.paren r inner) n
  | negate {r : Range} {inner : Expr} {n : Int} (h : IsInteger inner n) :
    IsInteger (.negate r inner) (-n)

variable {e : Expr} {n : Int}

/-- What is read as an integer from an expression is one. -/
theorem isInteger_of_int? (h : e.int? = some n) : e.IsInteger n := by
  induction e using Expr.int?.induct generalizing n with
  | case1 r inner ih => exact (ih h).paren
  | case2 r l => exact .literal h
  | case3 r inner ih =>
    rcases Option.bind_eq_some_iff.mp h with ⟨k, hk, hneg⟩
    unfold negatedInt? at hneg
    split at hneg
    · contradiction
    · cases hneg
      exact (ih hk).negate
  | case4 e hparen hliteral hnegate =>
    cases e with
    | paren | literal | negate => simp_all
    | _ => cases h

theorem number?_stripParens (e : Expr) : e.stripParens.number? = e.number? :=
  apply_stripParens (fun _ _ => by rw [number?]) e

/-- An integer expression is known as the number that its integer is rounded to. -/
theorem IsInteger.exists_number (h : e.IsInteger n) :
    ∃ x, e.number? = some x ∧ x.rank = (Double.ofInt n).rank := by
  induction h with
  | @literal r l n h =>
    refine ⟨Double.ofInt n, ?_, rfl⟩
    cases l with
    | int | hex =>
      cases h
      rfl
    | _ => cases h
  | paren _ ih => exact ih
  | negate _ ih =>
    rcases ih with ⟨x, hx, hrank⟩
    refine ⟨x.negate, by rw [number?, hx]; rfl, ?_⟩
    rw [Double.rank_negate, hrank, Double.rank_ofInt_neg]

/-- An integer expression is not a boolean. -/
theorem IsInteger.bool?_eq_none (ctx : Context) (h : e.IsInteger n) : ctx.bool? e = none := by
  have hresolve : ctx.resolveExpr e = none := by
    induction h with
    | paren _ ih => exact ih
    | _ => rfl
  simp [Context.bool?, Context.isReference, hresolve]

end Expr

/-- Literals with the same value are the same number, if they are numbers. -/
theorem Literal.same_of_sameValue {l l' : Literal} (h : l.sameValue l' = true) {x y : Double}
    (hx : l.number? = some x) (hy : l'.number? = some y) : x.same y = true := by
  cases l <;> cases l' <;> simp_all [sameValue, number?]

/-- Equal expressions are the same number, if they are numbers. -/
theorem Context.same_of_areEqual {ctx : Context} {left right : Expr}
    (h : ctx.areEqual left right = true) {x y : Double} (hx : left.number? = some x)
    (hy : right.number? = some y) : x.same y = true := by
  induction left using Expr.number?.induct generalizing right x y with
  | case1 r inner ih =>
    rw [areEqual] at h
    exact ih h hx hy
  | case2 r l =>
    rw [areEqual] at h
    rw [← Expr.number?_stripParens] at hy
    split at h
    · rename_i l' heq
      rw [heq] at hy
      exact Literal.same_of_sameValue h hx hy
    · contradiction
  | case3 r inner ih =>
    rw [areEqual] at h
    rw [← Expr.number?_stripParens] at hy
    split at h
    · rename_i inner' heq
      rw [heq] at hy
      rcases Option.map_eq_some_iff.mp hx with ⟨x', hx', rfl⟩
      rcases Option.map_eq_some_iff.mp hy with ⟨y', hy', rfl⟩
      have hsame := ih h hx' hy'
      simpa [Double.same] using hsame
    · contradiction
  | case4 e hparen hliteral hnegate =>
    cases e with
    | paren | literal | negate => simp_all
    | _ => cases hx

namespace Rule

/-! ## Verdicts -/

/-- A comparison of integers: the rule that looks at it, what its message calls it, and what it
means. -/
structure IntegerComparison where
  rule : Rule
  subject : String
  holds : Int → Int → Bool

/-- The comparison of integers that an operator makes. -/
def integerComparison? (symbol : String) : Option IntegerComparison :=
  if symbol == "==" then some ⟨equality, "Condition", fun a b => a == b⟩
  else if symbol == "/=" then some ⟨equality, "Condition", fun a b => a != b⟩
  else if symbol == "<" then some ⟨comparison, "Comparison", fun a b => a < b⟩
  else if symbol == ">" then some ⟨comparison, "Comparison", fun a b => b < a⟩
  else if symbol == "<=" then some ⟨comparison, "Comparison", fun a b => a ≤ b⟩
  else if symbol == ">=" then some ⟨comparison, "Comparison", fun a b => b ≤ a⟩
  else none

/-- A finding replaces a node by a boolean that it names in its message. -/
structure Decides (ctx : Context) (whole : Range) (subject : String) (result : Bool)
    (f : Finding) : Prop where
  message : f.message = s!"{subject} is always {boolName result}"
  range : f.range = whole
  edits : f.edits = [ctx.replaceBy whole (ctx.qualify Core.basics (boolName result)) true]

section

variable {ctx : Context} {left right : Expr} {x y : Double}

/-- Two numbers are compared for equality as doubles. -/
theorem knownComparison?_of_number (isEqual : Bool) (hx : left.number? = some x)
    (hy : right.number? = some y) :
    knownComparison? ctx isEqual left right = some (x.same y == isEqual) := by
  unfold knownComparison?
  split
  · rename_i heq
    rw [Context.same_of_areEqual heq hx hy, Bool.true_beq]
  · unfold literalsEqual?
    rw [hx, hy]
    rfl

/-- A comparison of two numbers for equality is decided. -/
theorem exists_decides_equality (whole : Range) (isEqual : Bool) (hleft : ctx.bool? left = none)
    (hright : ctx.bool? right = none) (hx : left.number? = some x) (hy : right.number? = some y) :
    ∃ f, checkComparison ctx whole isEqual left right = some f ∧
      Decides ctx whole "Condition" (x.same y == isEqual) f := by
  have hbool : comparedWithBool? ctx isEqual left right = none := by
    rw [comparedWithBool?, hleft, hright]
    rfl
  unfold checkComparison
  rw [hbool, knownComparison?_of_number isEqual hx hy]
  exact ⟨_, rfl, rfl, rfl, rfl⟩

/-- A comparison of two numbers by their order is decided. -/
theorem exists_decides_ordering (ctx : Context) (whole : Range) {symbol : String}
    {compare : Double → Double → Bool} (hsymbol : ordering? symbol = some compare)
    (hx : left.number? = some x) (hy : right.number? = some y) :
    ∃ f, checkOrdering ctx (.binary whole symbol left right) = some f ∧
      Decides ctx whole "Comparison" (compare x y) f := by
  unfold checkOrdering
  dsimp only
  rw [hsymbol, hx, hy]
  exact ⟨_, rfl, rfl, rfl, rfl⟩

end

/-- A comparison depends on the order of its sides only. -/
theorem IntegerComparison.holds_congr {symbol : String} {c : IntegerComparison}
    (hc : integerComparison? symbol = some c) {a b a' b' : Int} (hlt : a < b ↔ a' < b')
    (hgt : b < a ↔ b' < a') : c.holds a b = c.holds a' b' := by
  unfold integerComparison? at hc
  split_ifs at hc <;> cases hc <;> rw [Bool.eq_iff_iff] <;> simp <;> omega

/-- A comparison gives the same for rounded integers, unless they merge and it would give something
else for equal ones. -/
theorem IntegerComparison.holds_rounded_iff {symbol : String} {c : IntegerComparison}
    (hc : integerComparison? symbol = some c) (a b : Int) :
    c.holds (Double.roundedInt a) (Double.roundedInt b) = c.holds a b ↔
      (Double.roundedInt a = Double.roundedInt b → c.holds a b = c.holds a a) := by
  have hle : a ≤ b → _ := Double.roundedInt_mono
  have hge : b ≤ a → _ := Double.roundedInt_mono
  by_cases hmerged : Double.roundedInt a = Double.roundedInt b
  · have hrounded : c.holds (Double.roundedInt a) (Double.roundedInt b) = c.holds a a :=
      holds_congr hc (by omega) (by omega)
    rw [hrounded, eq_comm]
    exact (imp_iff_right hmerged).symm
  · have hrounded : c.holds (Double.roundedInt a) (Double.roundedInt b) = c.holds a b :=
      holds_congr hc (by omega) (by omega)
    exact iff_of_true hrounded fun h => absurd h hmerged

/-- A comparison of two numbers that round as two integers do is decided as that of the rounded
integers. -/
theorem exists_decides_rounded {ctx : Context} {whole : Range} {left right : Expr} {a b : Int}
    (hleft : left.IsInteger a) (hright : right.IsInteger b) (ha : IsInt64 a) (hb : IsInt64 b)
    {symbol : String} {c : IntegerComparison} (hc : integerComparison? symbol = some c) :
    ∃ f, c.rule.check ctx (.binary whole symbol left right) = some f ∧
      Decides ctx whole c.subject
        (c.holds (Double.roundedInt a) (Double.roundedInt b)) f := by
  rcases hleft.exists_number with ⟨x, hx, hxrank⟩
  rcases hright.exists_number with ⟨y, hy, hyrank⟩
  -- each integer is rounded to a double first, and the doubles are compared
  have hsame : x.same y = (Double.roundedInt a == Double.roundedInt b) := by
    rw [Double.same, Bool.eq_iff_iff, beq_iff_eq, beq_iff_eq, hxrank, hyrank,
      Double.rank_ofInt_eq_iff ha hb]
  have hless : x.less y = decide (Double.roundedInt a < Double.roundedInt b) := by
    rw [Double.less, hxrank, hyrank, decide_eq_decide, Double.rank_ofInt_lt_iff ha hb]
  have hless' : y.less x = decide (Double.roundedInt b < Double.roundedInt a) := by
    rw [Double.less, hxrank, hyrank, decide_eq_decide, Double.rank_ofInt_lt_iff hb ha]
  have hatMost : x.atMost y = decide (Double.roundedInt a ≤ Double.roundedInt b) := by
    rw [Double.atMost, hxrank, hyrank, decide_eq_decide,
      Double.rank_ofInt_le_iff ha.log2_le hb.log2_le]
  have hatMost' : y.atMost x = decide (Double.roundedInt b ≤ Double.roundedInt a) := by
    rw [Double.atMost, hxrank, hyrank, decide_eq_decide,
      Double.rank_ofInt_le_iff hb.log2_le ha.log2_le]
  have hbool := hleft.bool?_eq_none ctx
  have hbool' := hright.bool?_eq_none ctx
  unfold integerComparison? at hc
  split_ifs at hc with h1 h2 h3 h4 h5 h6 <;> cases hc
  · obtain rfl := eq_of_beq h1
    have hfound := exists_decides_equality whole true hbool hbool' hx hy
    rwa [hsame, beq_true] at hfound
  · obtain rfl := eq_of_beq h2
    have hfound := exists_decides_equality whole false hbool hbool' hx hy
    rwa [hsame, beq_false] at hfound
  · obtain rfl := eq_of_beq h3
    have hfound := exists_decides_ordering ctx whole (show ordering? "<" = _ from rfl) hx hy
    rwa [hless] at hfound
  · obtain rfl := eq_of_beq h4
    have hfound := exists_decides_ordering ctx whole (show ordering? ">" = _ from rfl) hx hy
    rwa [hless'] at hfound
  · obtain rfl := eq_of_beq h5
    have hfound := exists_decides_ordering ctx whole (show ordering? "<=" = _ from rfl) hx hy
    rwa [hatMost] at hfound
  · obtain rfl := eq_of_beq h6
    have hfound := exists_decides_ordering ctx whole (show ordering? ">=" = _ from rfl) hx hy
    rwa [hatMost'] at hfound

/-- Two integer literals have the same value if they are rounded to the same number. -/
theorem sameValue_iff {l l' : Literal} {a b : Int} (hl : l.int? = some a) (hl' : l'.int? = some b)
    (ha : IsInt64 a) (hb : IsInt64 b) :
    l.sameValue l' = true ↔ Double.roundedInt a = Double.roundedInt b := by
  rw [← Double.rank_ofInt_eq_iff ha hb]
  cases l <;> cases hl <;> cases l' <;> cases hl' <;> exact beq_iff_eq

/-- Any comparison of two integer expressions is decided, and the result is that for the integers
rounded to 53 binary digits. It is the right one unless the two integers are rounded to the same
number and equal integers would compare otherwise; literals have the same value if they are rounded
to the same number. So all is exact when one of the integers is below `2 ^ 53`; any integer is off
by half of its last unit at most. -/
theorem integer_verdicts_rounded (ctx : Context) (whole : Range) {left right : Expr} {a b : Int}
    (hleft : left.IsInteger a) (hright : right.IsInteger b) (ha : IsInt64 a) (hb : IsInt64 b) :
    (∀ symbol c, integerComparison? symbol = some c →
      (∃ f, c.rule.check ctx (.binary whole symbol left right) = some f ∧
        Decides ctx whole c.subject
          (c.holds (Double.roundedInt a) (Double.roundedInt b)) f) ∧
      (c.holds (Double.roundedInt a) (Double.roundedInt b) = c.holds a b ↔
        (Double.roundedInt a = Double.roundedInt b → c.holds a b = c.holds a a))) ∧
    (∀ l l' : Literal, l.int? = some a → l'.int? = some b →
      (l.sameValue l' = true ↔ Double.roundedInt a = Double.roundedInt b)) ∧
    (a.natAbs < 2 ^ 53 ∨ b.natAbs < 2 ^ 53 →
      (Double.roundedInt a = Double.roundedInt b ↔ a = b)) ∧
    2 * (Double.roundedInt a - a).natAbs ≤ Double.lastUnit a.natAbs := by
  refine ⟨?_, ?_, ?_, Double.roundedInt_near a⟩
  · intro symbol c hc
    exact ⟨exists_decides_rounded hleft hright ha hb hc, IntegerComparison.holds_rounded_iff hc a b⟩
  · intro l l' hl hl'
    exact sameValue_iff hl hl' ha hb
  · intro hsmall
    refine ⟨fun h => ?_, fun h => by rw [h]⟩
    rcases hsmall with hsmall | hsmall
    · exact Double.eq_of_roundedInt_eq hsmall h
    · exact (Double.eq_of_roundedInt_eq hsmall h.symm).symm

/-- The operator stands between two integer expressions with these values. -/
def comparesInts (symbol : String) (a b : Int) : Expr → Bool
  | .binary _ symbol' left right => symbol' == symbol && left.int? == some a && right.int? == some b
  | _ => false

theorem exists_of_comparesInts {symbol : String} {a b : Int} {e : Expr}
    (h : comparesInts symbol a b e = true) :
    ∃ whole left right, e = .binary whole symbol left right ∧ left.IsInteger a ∧
      right.IsInteger b := by
  unfold comparesInts at h
  split at h
  · rename_i whole symbol' left right
    simp only [Bool.and_eq_true, beq_iff_eq] at h
    rcases h with ⟨⟨rfl, hleft⟩, hright⟩
    exact ⟨whole, left, right, rfl, Expr.isInteger_of_int? hleft, Expr.isInteger_of_int? hright⟩
  · contradiction

/-- A negative hexadecimal number is less than a number that is not exact as a double. -/
theorem integer_verdicts_rounded_hex :
    ∃ m v f, Module.parse "x = -(0x10) < 9007199254740993\n" = .ok m ∧ v ∈ m.values ∧
      comparison.check ⟨ModuleContext.ofModule m ProjectIndex.core.knowledge [], [], true⟩ v.body =
        some f ∧ f.message = "Comparison is always True" := by
  have hread : passesByDefault "x = -(0x10) < 9007199254740993\n"
      (fun m _ => m.values.any fun v => comparesInts "<" (-16) 9007199254740993 v.body) =
        true := by
    decide +kernel
  rcases exists_of_passesByDefault hread with ⟨m, s, hm, -, htest⟩
  rcases List.any_eq_true.mp htest with ⟨v, hv, hbody⟩
  rcases exists_of_comparesInts hbody with ⟨whole, left, right, heq, hleft, hright⟩
  rcases (integer_verdicts_rounded
    ⟨ModuleContext.ofModule m ProjectIndex.core.knowledge [], [], true⟩ whole hleft hright
    (by decide) (by decide)).1 "<" _ rfl with ⟨⟨f, hf, hdecides⟩, -⟩
  refine ⟨m, v, f, hm, hv, ?_, ?_⟩
  · rw [heq]
    exact hf
  · rw [hdecides.message]
    decide

/-- Two different integers have the same value, and a comparison of them for equality is said to be
always true. -/
theorem neighbouring_integers_merge :
    ∃ m s v, Module.parse "x = 9007199254740993 == 9007199254740992\n" = .ok m ∧
      Simplifier.ofConfig .default = .ok s ∧ v ∈ m.values ∧
      comparesInts "==" 9007199254740993 9007199254740992 v.body = true ∧
      (s.analyzeModule m ProjectIndex.core.knowledge).map Finding.message =
        ["Condition is always True"] ∧
      (Literal.int 9007199254740993).sameValue (.int 9007199254740992) = true := by
  have hfound : passesByDefault "x = 9007199254740993 == 9007199254740992\n" (fun m s =>
      (m.values.any fun v => comparesInts "==" 9007199254740993 9007199254740992 v.body) &&
      (s.analyzeModule m ProjectIndex.core.knowledge).map Finding.message =
        ["Condition is always True"]) = true := by
    decide +kernel
  rcases exists_of_passesByDefault hfound with ⟨m, s, hm, hs, htest⟩
  rcases (Bool.and_eq_true _ _).mp htest with ⟨hany, hmessages⟩
  rcases List.any_eq_true.mp hany with ⟨v, hv, hbody⟩
  exact ⟨m, s, v, hm, hs, hv, hbody, of_decide_eq_true hmessages, by decide⟩

end Rule

end Terse
