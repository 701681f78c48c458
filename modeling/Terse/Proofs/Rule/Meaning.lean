import Terse.Proofs.Lint.Analysis
import Terse.Proofs.View.Meaning

/-!
# Boolean fixes keep the value

Whatever expressions mean, as long as Boolean algebra means what it usually does: a fix of a Boolean
simplification leaves an expression with the value of the node. This is a part of the node, a
boolean, the negation of a part, or the comparison without its negations.
-/

namespace Terse

/-! ## What a fix leaves -/

/-- The name of the called function stands in no parentheses of its own. -/
def Expr.namesBare : Expr → Bool
  | .paren _ inner => inner.namesBare
  | .app _ (.var _ _) _ => true
  | _ => false

/-- Taking the text from the name up to the argument out of a call leaves the argument, in the
parentheses around the call. -/
inductive WithoutName : Expr → Range → Expr → Prop where
  | app (r r' : Range) (q : QualifiedName) (arg : Expr) :
    WithoutName (.app r (.var r' q) [arg]) ⟨r'.start, arg.range.start⟩ arg
  | paren {r cut : Range} {inner left : Expr} (h : WithoutName inner cut left) :
    WithoutName (.paren r inner) cut (.paren r left)

/-- The names that Boolean fixes write. -/
def booleanNames : List ResolvedName :=
  [⟨Core.basics, "True"⟩, ⟨Core.basics, "False"⟩, ⟨Core.basics, "not"⟩]

/-- The edits write some names and leave an expression in the place of a node. -/
inductive Leaves (ctx : Context) (e : Expr) : List Edit → List ResolvedName → Expr → Prop where
  /-- A part of the node is kept. -/
  | part {kept : Expr} (h : kept ∈ e.nodes) : Leaves ctx e (ctx.keepOnly e.range kept) [] kept
  /-- A boolean is written. -/
  | boolean (b : Bool) :
    Leaves ctx e [ctx.replaceBy e.range (ctx.qualify Core.basics (boolName b)) true]
      [⟨Core.basics, boolName b⟩] (.var e.range (ctx.reference ⟨Core.basics, boolName b⟩))
  /-- The negation of a part is written. -/
  | negation {c : Expr} (h : c ∈ e.nodes) :
    Leaves ctx e [ctx.replaceBy e.range (Rule.negatedText ctx c) false] [⟨Core.basics, "not"⟩]
      (.app e.range (.var e.range (ctx.reference ⟨Core.basics, "not"⟩)) [c])
  /-- A function is taken away from both operands. -/
  | operands {r cut cut' : Range} {symbol : String} {left right left' right' : Expr}
    (he : e = .binary r symbol left right) (h : WithoutName left cut left')
    (h' : WithoutName right cut' right') :
    Leaves ctx e [.remove cut, .remove cut'] [] (.binary r symbol left' right')

/-- A Boolean fix writes no names but those of the booleans and of their negation. -/
theorem Leaves.mem_booleanNames {ctx : Context} {e left : Expr} {edits : List Edit}
    {names : List ResolvedName} (h : Leaves ctx e edits names left) :
    ∀ n ∈ names, n ∈ booleanNames := by
  cases h with
  | part | operands => exact List.forall_mem_nil _
  | boolean b => cases b <;> simp [booleanNames, boolName]
  | negation => simp [booleanNames]

namespace Rule

variable {ctx : Context} {Value : Type} {M : Meaning ctx Value}

open Meaning

/-- The finding has a fix, and the fix leaves an expression with the value of the node, if the names
that it writes mean what they are written for. -/
def Keeps (M : Meaning ctx Value) (e : Expr) (f : Finding) : Prop :=
  ∃ edits names left, f.fix = some edits ∧ Leaves ctx e edits names left ∧
    ((∀ n ∈ names, ctx.WritesName n) → M.value left = M.value e)

variable {e : Expr} {f : Finding}

theorem Keeps.part {kept : Expr} {code : RuleCode} {message : String} {details : List String}
    {range : Range} (h : kept ∈ e.nodes) (hvalue : M.value kept = M.value e) :
    Keeps M e (.fixing code message details range (ctx.keepOnly e.range kept.stripParens)) := by
  have hstripped : kept.stripParens ∈ kept.nodes :=
    Expr.mem_nodes_of_stripParens kept.stripParens.mem_nodes_self
  refine ⟨_, _, _, rfl, .part (Expr.mem_nodes_trans hstripped h), fun _ => ?_⟩
  rw [value_stripParens, hvalue]

theorem Keeps.boolean {b : Bool} {code : RuleCode} {message : String} {details : List String}
    {range : Range} (hvalue : M.value e = M.bool b) :
    Keeps M e (.fixing code message details range
      [ctx.replaceBy e.range (ctx.qualify Core.basics (boolName b)) true]) := by
  refine ⟨_, _, _, rfl, .boolean b, fun hnames => ?_⟩
  rw [M.boolean _ _ b (hnames _ List.mem_cons_self), hvalue]

/-! ## Operators with a known operand -/

theorem absorbing?_eq_some {symbol : String} {a : Bool} (h : absorbing? symbol = some a) :
    symbol = "||" ∧ a = true ∨ symbol = "&&" ∧ a = false := by
  unfold absorbing? at h
  split at h
  · rename_i hor
    cases h
    exact .inl ⟨eq_of_beq hor, rfl⟩
  · split at h
    · rename_i hand
      cases h
      exact .inr ⟨eq_of_beq hand, rfl⟩
    · cases h

/-- An operand that absorbs is the result, and any other leaves the other operand. -/
theorem value_of_operator {r : Range} {symbol : String} {left right : Expr} {a x y : Bool}
    (h : absorbing? symbol = some a) (hleft : M.value left = M.bool x)
    (hright : M.value right = M.bool y) :
    M.value (.binary r symbol left right) = M.bool (if x = a then x else y) ∧
      M.value (.binary r symbol left right) = M.bool (if y = a then y else x) := by
  rcases absorbing?_eq_some h with ⟨rfl, rfl⟩ | ⟨rfl, rfl⟩
  · rw [M.or r left right x y hleft hright]
    cases x <;> cases y <;> simp
  · rw [M.and r left right x y hleft hright]
    cases x <;> cases y <;> simp

theorem checkBooleanOperator_keeps (htyped : M.Typed e)
    (h : checkBooleanOperator ctx e = some f) : Keeps M e f := by
  unfold checkBooleanOperator at h
  split at h
  case h_2 => cases h
  rename_i whole symbol left right
  split at h
  case h_1 => cases h
  rename_i a ha
  have hsymbol : symbol = "||" ∨ symbol = "&&" := (absorbing?_eq_some ha).imp And.left And.left
  rcases htyped.operands whole symbol left right rfl hsymbol with ⟨⟨x, hx⟩, ⟨y, hy⟩⟩
  rcases value_of_operator (r := whole) ha hx hy with ⟨hvalue, hvalue'⟩
  have hleft : left ∈ (Expr.binary whole symbol left right).nodes :=
    Expr.mem_nodes_of_child List.mem_cons_self left.mem_nodes_self
  have hright : right ∈ (Expr.binary whole symbol left right).nodes :=
    Expr.mem_nodes_of_child (by simp [Expr.children]) right.mem_nodes_self
  split at h
  · -- the left operand is known
    rename_i value hbool
    cases h
    obtain rfl : x = value := M.bool_injective (hx.symm.trans (value_of_bool? hbool))
    unfold knownOperand
    split
    · rename_i habsorbs
      exact .part hleft (by rw [hvalue, if_pos habsorbs, hx])
    · rename_i habsorbs
      exact .part hright (by rw [hvalue, if_neg habsorbs, hy])
  · -- the right one is
    rename_i value _ hbool
    cases h
    obtain rfl : y = value := M.bool_injective (hy.symm.trans (value_of_bool? hbool))
    unfold knownOperand
    split
    · rename_i habsorbs
      exact .part hright (by rw [hvalue', if_pos habsorbs, hy])
    · rename_i habsorbs
      exact .part hleft (by rw [hvalue', if_neg habsorbs, hx])
  · split at h
    · -- both are equal
      rename_i hequal
      cases h
      have hsame : x = y := M.bool_injective (by rw [← hx, ← hy, M.areEqual left right hequal])
      exact .part hleft (by rw [hvalue, hx, hsame, ite_self])
    · cases h

/-! ## Negation -/

theorem checkNot_keeps (htyped : ∀ n ∈ e.nodes, M.Typed n)
    (hchain : Chain.ofExpr? e = none) (h : checkNot ctx e = some f) : Keeps M e f := by
  unfold checkNot at h
  rw [hchain] at h
  dsimp only at h
  split at h
  case h_2 => cases h
  rename_i call hcall
  split at h
  case h_2 => cases h
  rename_i argument hnot hargs
  have hrange : call.range = e.range := Call.range_of_within hcall
  have hargument : ctx.argOfCall? e Core.basics "not" = some argument :=
    Context.argOfCall?_eq_some_iff.mpr ⟨call, hcall, hnot, hargs⟩
  have hvalue := value_of_argOfCall? (M := M) hargument
  have hmem : argument ∈ e.nodes := Context.mem_nodes_of_argOfCall? hargument
  unfold checkNotCall at h
  rw [hrange] at h
  split at h
  · rename_i b hb
    cases h
    refine .boolean ?_
    rw [hvalue, value_of_bool? hb, M.apply_negation]
  · split at h
    · rename_i inner hinner
      cases h
      -- the argument of the inner call is negated twice
      rcases (htyped argument hmem).negated inner hinner with ⟨b, hb⟩
      refine .part (Expr.mem_nodes_trans (Context.mem_nodes_of_argOfCall? hinner) hmem) ?_
      rw [hvalue, value_of_argOfCall? hinner, hb, M.apply_negation, M.apply_negation, Bool.not_not]
    · cases h

/-! ## Comparisons -/

/-- A call with its name bare and a single argument leaves this argument. -/
theorem exists_withoutName {range : Range} {call : Call} {arg : Expr}
    (h : Call.within ctx range e = some call) (hbare : e.namesBare = true)
    (hargs : call.args = [arg]) :
    ∃ left, WithoutName e ⟨call.fnRange.start, arg.range.start⟩ left ∧
      M.value left = M.value arg := by
  rw [Call.within_eq_some_iff] at h
  fun_induction Expr.namesBare e generalizing range call with
  | case1 r inner ih =>
    cases h with
    | paren h =>
      rcases ih h hbare hargs with ⟨left, hleft, hvalue⟩
      exact ⟨.paren r left, .paren hleft, (M.paren r left).trans hvalue⟩
  | case2 r r' q args =>
    cases h with
    | app h =>
      cases h with
      | var =>
        obtain rfl : args = [arg] := hargs
        exact ⟨arg, .app r r' q arg, rfl⟩
  | case3 => cases hbare

/-- What is negated, with the call that negates it. -/
theorem negated?_eq_some {fnRange : Range} {arg : Expr} (h : negated? ctx e = some (fnRange, arg)) :
    ∃ call, Call.ofExpr? ctx e = some call ∧ call.fnRange = fnRange ∧ call.args = [arg] ∧
      ctx.argOfCall? e Core.basics "not" = some arg := by
  unfold negated? at h
  split at h
  case h_2 => cases h
  rename_i call hcall
  split at h
  case h_2 => cases h
  rename_i argument hnot hargs _
  cases h
  exact ⟨call, hcall, rfl, hargs, Context.argOfCall?_eq_some_iff.mpr ⟨call, hcall, hnot, hargs⟩⟩

/-- Two booleans are the same if their negations are. -/
theorem value_eq_iff_of_negated {left right leftArg rightArg : Expr}
    (hleft : ctx.argOfCall? left Core.basics "not" = some leftArg)
    (hright : ctx.argOfCall? right Core.basics "not" = some rightArg)
    (hleftBool : M.IsBool leftArg) (hrightBool : M.IsBool rightArg) :
    M.value left = M.value right ↔ M.value leftArg = M.value rightArg := by
  rcases hleftBool with ⟨x, hx⟩
  rcases hrightBool with ⟨y, hy⟩
  rw [value_of_argOfCall? hleft, value_of_argOfCall? hright, hx, hy, M.apply_negation,
    M.apply_negation, M.bool_injective.eq_iff, M.bool_injective.eq_iff]
  cases x <;> cases y <;> simp

/-- The symbol that asks whether its operands are equal, or whether they are not. -/
def comparisonSymbol (isEqual : Bool) : String := if isEqual then "==" else "/="

/-- A comparison has the value that the equality of its operands asks for. -/
theorem value_of_comparison {r : Range} {left right : Expr} {isEqual b : Bool}
    (h : M.value left = M.value right ↔ b = true) :
    M.value (.binary r (comparisonSymbol isEqual) left right) = M.bool (b == isEqual) := by
  cases isEqual with
  | true =>
    rw [beq_true]
    exact M.equal r left right b h
  | false =>
    rw [beq_false]
    exact M.unequal r left right b h

/-- A comparison with the boolean that it asks for has the value of the other operand. -/
theorem value_of_comparedWithBool? {r : Range} {left right kept : Expr} {isEqual : Bool}
    (hbool : M.IsBool left ↔ M.IsBool right)
    (h : comparedWithBool? ctx isEqual left right = some kept) :
    (kept = left ∨ kept = right) ∧
      M.value kept = M.value (.binary r (comparisonSymbol isEqual) left right) := by
  unfold comparedWithBool? at h
  split at h
  · rename_i hright
    cases h
    have hright := value_of_bool? (M := M) hright
    rcases hbool.mpr ⟨_, hright⟩ with ⟨x, hx⟩
    have hsame : M.value left = M.value right ↔ (x == isEqual) = true := by
      rw [hx, hright, M.bool_injective.eq_iff, beq_iff_eq]
    refine ⟨.inl rfl, ?_⟩
    rw [value_of_comparison hsame, hx]
    cases x <;> cases isEqual <;> rfl
  · split at h
    · rename_i hleft
      cases h
      have hleft := value_of_bool? (M := M) hleft
      rcases hbool.mp ⟨_, hleft⟩ with ⟨x, hx⟩
      have hsame : M.value left = M.value right ↔ (isEqual == x) = true := by
        rw [hx, hleft, M.bool_injective.eq_iff, beq_iff_eq]
      refine ⟨.inr rfl, ?_⟩
      rw [value_of_comparison hsame, hx]
      cases x <;> cases isEqual <;> rfl
    · cases h

/-- The operands are not literals, unless they are equal as expressions. -/
def ComparesNoLiterals (ctx : Context) : Expr → Prop
  | .binary _ _ left right => ctx.areEqual left right = true ∨ literalsEqual? left right = none
  | _ => True

/-- When both operands are negated, the names of the negations stand in no parentheses of their
own. -/
def NegationsBare (ctx : Context) : Expr → Prop
  | .binary _ _ left right =>
    (negated? ctx left).isSome = true → (negated? ctx right).isSome = true →
      left.namesBare = true ∧ right.namesBare = true
  | _ => True

theorem checkComparison_keeps {whole : Range} {left right : Expr} {isEqual : Bool}
    (he : e = .binary whole (comparisonSymbol isEqual) left right)
    (htyped : ∀ n ∈ e.nodes, M.Typed n) (hliterals : ComparesNoLiterals ctx e)
    (hbare : NegationsBare ctx e)
    (h : checkComparison ctx whole isEqual left right = some f) : Keeps M e f := by
  have hsymbol : comparisonSymbol isEqual = "==" ∨ comparisonSymbol isEqual = "/=" := by
    cases isEqual
    · exact .inr rfl
    · exact .inl rfl
  have hbool := (htyped e e.mem_nodes_self).compared _ _ _ _ he hsymbol
  rw [he] at hliterals hbare
  have hleft : left ∈ e.nodes := by
    rw [he]
    exact Expr.mem_nodes_of_child List.mem_cons_self left.mem_nodes_self
  have hright : right ∈ e.nodes := by
    rw [he]
    exact Expr.mem_nodes_of_child (by simp [Expr.children]) right.mem_nodes_self
  obtain rfl : whole = e.range := by rw [he]; rfl
  unfold checkComparison at h
  split at h
  · -- with a boolean
    rename_i kept hkept
    cases h
    rcases value_of_comparedWithBool? (r := e.range) hbool hkept with ⟨hside, hvalue⟩
    rw [← he] at hvalue
    refine .part ?_ hvalue
    rcases hside with rfl | rfl
    · exact hleft
    · exact hright
  · -- of equal operands
    rename_i result _ hknown
    cases h
    refine .boolean ?_
    unfold knownComparison? at hknown
    split at hknown
    · rename_i hequal
      cases hknown
      have hsame : M.value left = M.value right ↔ true = true := by
        simp [M.areEqual left right hequal]
      rw [he, value_of_comparison hsame, Bool.true_beq]
    · rename_i hequal
      rw [hliterals.resolve_left hequal] at hknown
      cases hknown
  · -- of negations
    split at h
    case h_2 => cases h
    rename_i leftNot leftArg rightNot rightArg hl hr
    cases h
    rcases hbare (by simp [hl]) (by simp [hr]) with ⟨hlBare, hrBare⟩
    rcases negated?_eq_some hl with ⟨call, hcall, rfl, hargs, hlArg⟩
    rcases negated?_eq_some hr with ⟨call', hcall', rfl, hargs', hrArg⟩
    rcases exists_withoutName (M := M) hcall hlBare hargs with ⟨left', hleft', hvalue⟩
    rcases exists_withoutName (M := M) hcall' hrBare hargs' with ⟨right', hright', hvalue'⟩
    refine ⟨_, _, _, rfl, .operands he hleft' hright', fun _ => ?_⟩
    have hiff := value_eq_iff_of_negated hlArg hrArg ((htyped left hleft).negated _ hlArg)
      ((htyped right hright).negated _ hrArg)
    rw [← hvalue, ← hvalue'] at hiff
    conv_rhs => rw [he]
    by_cases hsame : M.value left' = M.value right'
    · rw [value_of_comparison (b := true) (by simp [hsame]),
        value_of_comparison (b := true) (by simp [hiff, hsame])]
    · rw [value_of_comparison (b := false) (by simp [hsame]),
        value_of_comparison (b := false) (by simp [hiff, hsame])]

theorem checkEquality_keeps (htyped : ∀ n ∈ e.nodes, M.Typed n)
    (hliterals : ComparesNoLiterals ctx e) (hbare : NegationsBare ctx e)
    (h : checkEquality ctx e = some f) : Keeps M e f := by
  unfold checkEquality at h
  split at h
  case h_2 => cases h
  rename_i whole symbol left right
  split at h
  · rename_i hsymbol
    obtain rfl : symbol = comparisonSymbol true := eq_of_beq hsymbol
    exact checkComparison_keeps rfl htyped hliterals hbare h
  · split at h
    · rename_i hsymbol
      obtain rfl : symbol = comparisonSymbol false := eq_of_beq hsymbol
      exact checkComparison_keeps rfl htyped hliterals hbare h
    · cases h

/-! ## Conditionals -/

theorem checkIf_keeps (htyped : M.Typed e) (h : checkIf ctx e = some f) : Keeps M e f := by
  unfold checkIf at h
  split at h
  case h_2 => cases h
  rename_i whole condition thenBranch elseBranch
  have hchild : ∀ c ∈ [condition, thenBranch, elseBranch],
      c ∈ (Expr.cond whole condition thenBranch elseBranch).nodes := by
    intro c hc
    exact Expr.mem_nodes_of_child hc c.mem_nodes_self
  rcases htyped.condition _ _ _ _ rfl with ⟨b, hb⟩
  have hvalue := M.cond whole condition thenBranch elseBranch b hb
  dsimp only at h
  split at h
  · -- a known condition
    rename_i value hknown
    cases h
    obtain rfl : b = value := M.bool_injective (hb.symm.trans (value_of_bool? hknown))
    refine .part ?_ hvalue.symm
    cases b <;> exact hchild _ (by simp)
  split at h
  · -- the condition itself
    rename_i hthen helse
    cases h
    refine .part (hchild _ (by simp)) ?_
    rw [hvalue, hb]
    cases b
    · exact (value_of_bool? helse).symm
    · exact (value_of_bool? hthen).symm
  · -- the opposite of the condition
    rename_i hthen helse
    cases h
    refine ⟨_, _, _, rfl, .negation (hchild condition (by simp)), fun hnames => ?_⟩
    rw [M.app, M.not _ _ (hnames _ List.mem_cons_self), hvalue, List.map_singleton, List.foldl_cons,
      List.foldl_nil, hb, M.apply_negation]
    cases b
    · exact (value_of_bool? helse).symm
    · exact (value_of_bool? hthen).symm
  · split at h
    · -- one value in both branches
      rename_i hequal
      cases h
      refine .part (hchild _ (by simp)) ?_
      rw [hvalue]
      cases b
      · exact M.areEqual _ _ hequal
      · rfl
    · cases h

/-! ## All Boolean simplifications -/

/-- What a Boolean simplification reports at a node that is well typed, with all its parts, has a
fix, and the expression that the fix leaves has the value of the node, if the names that the fix
writes mean what they are written for. Chains of compositions and comparisons of literals are left
out, and negations on both sides of a comparison have to be named without parentheses. -/
theorem boolean_fix_keeps_value (M : Meaning ctx Value) {rule : Rule}
    (hrule : rule ∈ [booleanOperators, notCalls, equality, ifExpressions])
    (htyped : ∀ n ∈ e.nodes, M.Typed n)
    (hchain : rule.code = .notCalls → Chain.ofExpr? e = none)
    (hcompared : rule.code = .equality → ComparesNoLiterals ctx e ∧ NegationsBare ctx e)
    (hf : rule.check ctx e = some f) :
    ∃ edits names left, f.fix = some edits ∧ Leaves ctx e edits names left ∧
      ((∀ n ∈ names, ctx.WritesName n) → M.value left = M.value e) := by
  simp only [List.mem_cons, List.not_mem_nil, or_false] at hrule
  rcases hrule with rfl | rfl | rfl | rfl
  · exact checkBooleanOperator_keeps (htyped e e.mem_nodes_self) hf
  · exact checkNot_keeps htyped (hchain rfl) hf
  · exact checkEquality_keeps htyped (hcompared rfl).1 (hcompared rfl).2 hf
  · exact checkIf_keeps (htyped e e.mem_nodes_self) hf

end Rule

/-! ## Two negations -/

/-- A reference is well typed wherever it stands. -/
theorem Meaning.typed_var {ctx : Context} {Value : Type} (M : Meaning ctx Value) (r : Range)
    (q : QualifiedName) : M.Typed (.var r q) := by
  refine ⟨by simp, by simp, by simp, ?_⟩
  intro a ha
  -- a call that is only a name has no arguments
  rcases Context.argOfCall?_eq_some_iff.mp ha with ⟨call, hcall, -, hargs⟩
  cases Call.within_eq_some_iff.mp hcall
  cases hargs

section

variable {ctx : Context} {Value : Type} {M : Meaning ctx Value} {r r1 r2 r3 r4 r5 r6 : Range}
  {n n' y z : QualifiedName}

theorem argOfCall?_not (hn : ctx.resolve n = some ⟨Core.basics, "not"⟩) :
    ctx.argOfCall? (.app r1 (.var r2 n) [.var r3 y]) Core.basics "not" = some (.var r3 y) := by
  simp [Context.argOfCall?, Context.argsOfCall?, Call.ofExpr?, Call.within, Call.extend, Call.isOf,
    hn]

/-- The negation of a boolean variable is well typed, and a boolean. -/
theorem Meaning.typed_not (r1 r2 : Range) (hn : ctx.resolve n = some ⟨Core.basics, "not"⟩)
    (hy : M.IsBool (.var r3 y)) :
    M.Typed (.app r1 (.var r2 n) [.var r3 y]) ∧ M.IsBool (.app r1 (.var r2 n) [.var r3 y]) := by
  refine ⟨⟨by simp, by simp, by simp, ?_⟩, ?_⟩
  · intro a ha
    rw [argOfCall?_not hn] at ha
    cases ha
    exact hy
  · rcases hy with ⟨b, hb⟩
    refine ⟨!b, ?_⟩
    rw [value_of_argOfCall? (argOfCall?_not hn), hb, M.apply_negation]

/-- A comparison of negations of boolean variables is well typed, with all its parts. -/
theorem Meaning.typed_comparison (hn : ctx.resolve n = some ⟨Core.basics, "not"⟩)
    (hn' : ctx.resolve n' = some ⟨Core.basics, "not"⟩) (hy : M.IsBool (.var r3 y))
    (hz : M.IsBool (.var r6 z)) :
    ∀ x ∈ (Expr.binary r "==" (.app r1 (.var r2 n) [.var r3 y])
      (.app r4 (.var r5 n') [.var r6 z])).nodes, M.Typed x := by
  have hleft := M.typed_not r1 r2 hn hy
  have hright := M.typed_not r4 r5 hn' hz
  simp only [Expr.nodes, Expr.nodesOfAll, List.forall_mem_cons, List.forall_mem_append,
    List.append_nil, List.singleton_append]
  refine ⟨⟨?_, ?_, by simp, ?_⟩, ?_⟩
  · intro _ _ _ _ heq hsymbol
    cases heq
    simp at hsymbol
  · intro _ _ _ _ heq _
    cases heq
    exact iff_of_true hleft.2 hright.2
  · intro a ha
    simp [Context.argOfCall?, Context.argsOfCall?, Call.ofExpr?, Call.within] at ha
  · exact ⟨⟨hleft.1, M.typed_var r2 n, M.typed_var r3 y, by simp⟩,
      hright.1, M.typed_var r5 n', M.typed_var r6 z, by simp⟩

end

/-- The node compares the negations of two variables, and is reported for that. -/
def comparesNegations (ctx : Context) (e : Expr) : Bool :=
  match e with
  | .binary _ "==" (.app _ (.var _ n) [.var _ y]) (.app _ (.var _ n') [.var _ z]) =>
    ctx.resolve n = some ⟨Core.basics, "not"⟩ && ctx.resolve n' = some ⟨Core.basics, "not"⟩ &&
      ctx.resolve y = none && ctx.resolve z = none && y ≠ z &&
      booleanNames.all (ctx.WritesName ·) && (Rule.equality.check ctx e).isSome
  | _ => false

/-- The negations of two variables are compared, and the comparison of the variables is left. It
has the same value whatever booleans the variables are. -/
theorem boolean_fix_keeps_value_two_negations :
    ∃ m v e ctx f, Module.parse "x y z =\n    not y == not z\n" = .ok m ∧ v ∈ m.values ∧
      e ∈ v.body.nodes ∧ Rule.equality.check ctx e = some f ∧
      ∀ env, ∃ edits names left, f.fix = some edits ∧ Leaves ctx e edits names left ∧
        left.worth ctx env = e.worth ctx env := by
  have hfound : someNode "x y z =\n    not y == not z\n" comparesNegations = true := by
    decide +kernel
  rcases exists_of_someNode hfound with ⟨m, v, e, ctx, hm, hv, he, htest⟩
  unfold comparesNegations at htest
  split at htest
  case h_2 => cases htest
  rename_i r r1 r2 n r3 y r4 r5 n' r6 z
  simp only [Bool.and_eq_true, decide_eq_true_eq, Option.isSome_iff_exists] at htest
  rcases htest with ⟨⟨⟨⟨⟨⟨hn, hn'⟩, hy⟩, hz⟩, hne⟩, hnames⟩, f, hf⟩
  refine ⟨m, v, _, ctx, f, hm, hv, he, hf, ?_⟩
  intro env
  have hkeeps := Rule.boolean_fix_keeps_value (.ofEnvironment ctx env) (by simp) ?typed
    (fun h => by cases h) (fun _ => ⟨?literals, ?bare⟩) hf
  case typed =>
    have hyBool : (Meaning.ofEnvironment ctx env).IsBool (.var r3 y) :=
      ⟨env y, by simp [Meaning.ofEnvironment, Expr.worth, hy]⟩
    have hzBool : (Meaning.ofEnvironment ctx env).IsBool (.var r6 z) :=
      ⟨env z, by simp [Meaning.ofEnvironment, Expr.worth, hz]⟩
    exact Meaning.typed_comparison hn hn' hyBool hzBool
  case literals => exact .inr rfl
  case bare => exact fun _ _ => ⟨rfl, rfl⟩
  rcases hkeeps with ⟨edits, names, left, hfix, hleaves, hvalue⟩
  refine ⟨edits, names, left, hfix, hleaves, hvalue fun n hn => ?_⟩
  exact of_decide_eq_true (List.all_eq_true.mp hnames n (hleaves.mem_booleanNames n hn))

/-- With the names in parentheses, the fix takes the closing parentheses with the names and leaves
the opening ones. No comparison is left, and the text cannot be read. -/
theorem parenthesized_negations_leave_no_comparison :
    ∃ m s f t, Module.parse "x = (not) a == (not) b\n" = .ok m ∧
      Simplifier.ofConfig .default = .ok s ∧
      f ∈ s.analyzeModule m ProjectIndex.core.knowledge ∧
      f.message = "Unnecessary negation on both sides" ∧
      f.applyTo "x = (not) a == (not) b\n" = .ok t ∧ ∀ m', Module.parse t ≠ .ok m' := by
  have hfound : passesByDefault "x = (not) a == (not) b\n" (fun m s =>
      (m.sites.findSome? fun site => Rule.firstFinding s.rules
        ⟨ModuleContext.ofModule m ProjectIndex.core.knowledge s.ignoredTypes, site.scope,
          site.isFree⟩ site.expr).map (fun f => (f.message, f.edits)) =
        some ("Unnecessary negation on both sides",
          [.remove ⟨⟨1, 6⟩, ⟨1, 11⟩⟩, .remove ⟨⟨1, 17⟩, ⟨1, 22⟩⟩])) = true := by
    decide +kernel
  have hplaces : (SourceText.ofString "x = (not) a == (not) b\n").placeAll
      [.remove ⟨⟨1, 6⟩, ⟨1, 11⟩⟩, .remove ⟨⟨1, 17⟩, ⟨1, 22⟩⟩] =
        .ok [⟨5, 10, _⟩, ⟨16, 21, _⟩] := rfl
  have hfixed : applyEdits "x = (not) a == (not) b\n"
      [.remove ⟨⟨1, 6⟩, ⟨1, 11⟩⟩, .remove ⟨⟨1, 17⟩, ⟨1, 22⟩⟩] = .ok "x = (a == (b\n" := by
    rw [applyEdits, SourceText.apply_of_sorted hplaces (by decide)]
    rfl
  have hrefused : (Module.parse "x = (a == (b\n").isOk = false := by
    decide +kernel
  rcases exists_of_passesByDefault hfound with ⟨m, s, hm, hs, htest⟩
  rcases Option.map_eq_some_iff.mp (of_decide_eq_true htest) with ⟨f, hf, heq⟩
  rw [Prod.mk.injEq] at heq
  rcases heq with ⟨hmessage, hedits⟩
  -- the first thing that is found is the first finding of the module
  rw [← Simplifier.head?_analyzeModule hm hs] at hf
  refine ⟨m, s, f, "x = (a == (b\n", hm, hs, List.mem_of_mem_head? hf, hmessage, ?_, ?_⟩
  · rw [Finding.applyTo, hedits]
    exact hfixed
  · intro m' hm'
    rw [hm'] at hrefused
    cases hrefused

end Terse
