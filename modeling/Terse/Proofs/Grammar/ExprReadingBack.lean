import Terse.Grammar.Expr
import Terse.Proofs.Grammar.PatternReadingBack

/-!
# Expressions are read back

Tokens that spell an expression without a case are read back to it where no layout ends before
them. Chains of operators are read from the left, so what is shown of them is that reading arrives
at the whole chain with some fuel left, ready for the operators behind it.
-/

namespace Terse.Grammar

open Token (Kind)
open Item (token part commas)

/-! ## Layout and first tokens -/

/-- Columns are counted from one. -/
def Columned (ts : List Token) : Prop := ∀ t ∈ ts, 0 < t.range.start.column

@[simp] theorem columned_cons {t : Token} {ts : List Token} :
    Columned (t :: ts) ↔ 0 < t.range.start.column ∧ Columned ts :=
  List.forall_mem_cons

@[simp] theorem columned_append {ts us : List Token} :
    Columned (ts ++ us) ↔ Columned ts ∧ Columned us :=
  List.forall_mem_append

theorem Columned.subset {ts us : List Token} (h : Columned ts) (hus : us ⊆ ts) : Columned us :=
  fun t ht => h t (hus ht)

/-- No token starts its row left of the first column. -/
theorem layoutEnds_zero {t : Token} {ts : List Token} (h : Columned (t :: ts)) :
    layoutEnds 0 (t :: ts) = false := by
  have ht := h t List.mem_cons_self
  simp only [layoutEnds, Bool.and_eq_false_iff, decide_eq_false_iff_not]
  exact .inr (by omega)

theorem layoutEnds_zero_append {ts : List Token} {own : List Token} (hne : own ≠ [])
    (h : Columned (own ++ ts)) : layoutEnds 0 (own ++ ts) = false := by
  rcases List.exists_cons_of_ne_nil hne with ⟨t, own, rfl⟩
  exact layoutEnds_zero h

/-- The next token can start an expression other than a case. -/
def startsExpr (ts : List Token) : Bool :=
  startsAtom ts || nextIs (.keyword .ifWord) ts || nextIs .backslash ts

theorem literal_startsAtom {t : Token} {l : Literal} (ht : t.kind = l.kind) (ts : List Token) :
    startsAtom (t :: ts) = true := by
  cases l <;> simp [startsAtom, nextKind, ht, Literal.kind]

/-- What is spelled as an argument starts as an argument does. -/
theorem argument_starts {e : Expr} {own : List Token} (h : (Node.expr e).SpelledBy own)
    (he : e.isArgument) (ts : List Token) : startsAtom (own ++ ts) = true := by
  -- all forms but an access start with a token of their own
  have hfirst : ∀ {k items us}, SpelledBy (token k :: items) us →
      (∀ t : Token, t.kind = k → startsAtom [t] = true) → startsAtom (us ++ ts) = true := by
    intro k items us hus hk
    rcases spelled_token.mp hus with ⟨t, rest, rfl, ht, -⟩
    exact hk t ht
  have hitems : SpelledBy e.items own := h.2
  cases e with
  | unit | operatorFn | accessor | negate | paren | list | tuple | record | update =>
    exact hfirst hitems fun t ht => by simp [startsAtom, nextKind, ht]
  | literal _ value => exact hfirst hitems fun t ht => literal_startsAtom ht []
  | var _ name =>
    refine hfirst hitems fun t ht => ?_
    unfold QualifiedName.kind at ht
    split at ht <;> simp [startsAtom, nextKind, ht]
  | app | binary | cond | case | lambda => cases he
  -- an access starts with its owner, which is an argument in turn
  | access _ owner _ =>
    rcases spelled_part.mp hitems with ⟨tokens, more, rfl, howner, -⟩
    rw [List.append_assoc]
    exact argument_starts howner (Expr.isArgument_of_isOwner h.1.1) _
termination_by sizeOf e

/-- What is spelled as an expression without a case starts as an expression does. -/
theorem expr_starts {e : Expr} {own : List Token} (h : (Node.expr e).SpelledBy own)
    (ts : List Token) : startsExpr (own ++ ts) = true := by
  cases e with
  | cond | lambda =>
    rcases spelled_token.mp h.2 with ⟨t, rest, rfl, ht, -⟩
    simp [startsExpr, nextIs, nextKind, ht]
  | case r scrutinee bs => exact absurd rfl (h.1.2 r scrutinee bs)
  | app _ fn _ =>
    rcases spelled_part.mp h.2 with ⟨tokens, more, rfl, hfn, -⟩
    rw [List.append_assoc]
    simp [startsExpr, argument_starts hfn h.1.1.1]
  | binary _ _ left _ =>
    rcases spelled_part.mp h.2 with ⟨tokens, more, rfl, hleft, -⟩
    rw [List.append_assoc]
    exact expr_starts hleft _
  | unit | operatorFn | accessor | negate | paren | list | tuple | record | update | literal | var
  | access => simp [startsExpr, argument_starts h rfl]
termination_by sizeOf e

theorem not_nextIs_of_startsExpr {k : Kind} {ts : List Token} (h : startsExpr ts = true)
    (hk : startsExpr [⟨k, default, default⟩] = false) : nextIs k ts = false := by
  rw [Bool.eq_false_iff]
  intro hnext
  rcases exists_of_nextIs hnext with ⟨t, rest, rfl, rfl⟩
  exact absurd (hk.symm.trans h) Bool.false_ne_true

/-! ## What may follow -/

/-- What ends an argument: a field would be taken of it. -/
def EndsAtom (rest : List Token) : Prop := ∀ f, nextIs (.dotField f) rest = false

/-- What ends an application. -/
def EndsOperand (rest : List Token) : Prop := startsAtom rest = false ∧ EndsAtom rest

/-- What ends an expression. -/
def EndsExpr (rest : List Token) : Prop :=
  EndsOperand rest ∧ ∀ symbol, nextIs (.operator symbol) rest = false

/-- What ends an expression, unless it is an operator that does not belong to it. -/
def Follows (e : Expr) (rest : List Token) : Prop :=
  EndsOperand rest ∧ ∀ symbol, nextIs (.operator symbol) rest = true → e.Precedes symbol

/-- What ends every expression ends this one. -/
theorem EndsExpr.follows {rest : List Token} (h : EndsExpr rest) (e : Expr) : Follows e rest :=
  ⟨h.1, fun symbol hs => absurd ((h.2 symbol).symm.trans hs) Bool.false_ne_true⟩

/-- Behind an open end nothing can follow but what ends every expression. -/
theorem Follows.endsExpr {e : Expr} {rest : List Token} (h : Follows e rest)
    (hopen : e.endsOpen = true) : EndsExpr rest := by
  refine ⟨h.1, fun symbol => Bool.eq_false_iff.mpr fun hs => ?_⟩
  exact absurd ((h.2 symbol hs).endsOpen.symm.trans hopen) Bool.false_ne_true

/-- The marks and words that end an expression inside of a construct. -/
theorem endsExpr_of_kind {t : Token} {ts : List Token}
    (h : t.kind = .comma ∨ t.kind = .rightParen ∨ t.kind = .rightBracket ∨ t.kind = .rightBrace ∨
      t.kind = .keyword .thenWord ∨ t.kind = .keyword .elseWord) : EndsExpr (t :: ts) := by
  rcases h with h | h | h | h | h | h <;>
    simp [EndsExpr, EndsOperand, EndsAtom, startsAtom, nextIs, nextKind, h]

/-- The start of a further argument ends an argument. -/
theorem endsAtom_of_startsAtom {ts : List Token} (h : startsAtom ts = true) : EndsAtom ts := by
  intro f
  rw [Bool.eq_false_iff]
  intro hnext
  rcases exists_of_nextIs hnext with ⟨t, rest, rfl, ht⟩
  simp [startsAtom, nextKind, ht] at h

/-! ## What each reader needs

Every reader spends one unit of fuel, and eight of them at most stand between two tokens. -/

/-- The tokens are read back to a record before fields are taken of it. -/
def ReadsOwner (e : Expr) (own : List Token) : Prop :=
  ∀ fuel, 8 * own.length ≤ fuel → ∀ rest, Columned rest →
    ∃ e', atom fuel 0 (own ++ rest) = .ok (accesses e' rest) ∧ e'.unplaced = e.unplaced

/-- The tokens are read back to an argument. -/
def ReadsArgument (e : Expr) (own : List Token) : Prop :=
  ∀ fuel, 8 * own.length ≤ fuel →
    ReadsBack Expr.unplaced (fun rest => Columned rest ∧ EndsAtom rest) (atom fuel 0) own e

/-- The tokens are read back to an operand. -/
def ReadsOperand (e : Expr) (own : List Token) : Prop :=
  ∀ fuel, 8 * own.length + 1 ≤ fuel →
    ReadsBack Expr.unplaced (fun rest => Columned rest ∧ Follows e rest) (operand fuel 0) own e

/-- The tokens are read back to a chain of operators, and the operators behind it are left. -/
def ReadsOperation (e : Expr) (own : List Token) : Prop :=
  ∀ fuel least, 8 * own.length + 2 ≤ fuel → e.AtLeast least →
    ∀ rest, Columned rest → Follows e rest → ∃ e' count,
      operation fuel least 0 (own ++ rest) = operators (fuel - count) least 0 e' rest ∧
        count ≤ own.length ∧ e'.unplaced = e.unplaced

/-- The tokens are read back to the expression by every reader that may meet it. -/
structure ExprReadsBack (e : Expr) (own : List Token) : Prop where
  owner : e.isOwner → ReadsOwner e own
  argument : e.isArgument → ReadsArgument e own
  operation : ReadsOperation e own
  expression : ∀ fuel, 8 * own.length + 3 ≤ fuel →
    ReadsBack Expr.unplaced (fun rest => Columned rest ∧ EndsExpr rest) (expression fuel 0) own e

variable {e : Expr} {own : List Token}

/-- The parts of the expression are read back. -/
def ExprPartsReadBack (e : Expr) : Prop :=
  ∀ {c own}, part (.expr c) ∈ e.items → (Node.expr c).SpelledBy own → Columned own →
    ExprReadsBack c own

/-! ## Brackets -/

/-- Behind a bracket that is not closed at once, items are read with commas between them. -/
theorem atom_bracket {fuel indent : Nat} {start : Range} {startsRow : Bool} {ts : List Token}
    (h : nextIs .rightBracket ts = false) :
    atom (fuel + 1) indent (⟨.leftBracket, start, startsRow⟩ :: ts) = (do
      let (items, ts) ← commaSeparated (expression fuel 0) (ts.length + 1) ts
      let (stop, ts) ← expectMark .rightBracket ts
      return (.list (start.merge stop) items, ts)) := by
  rw [atom]
  rintro stop startsRow rest rfl
  simp [nextIs, nextKind] at h

/-- Behind a parenthesis that is not closed at once, items are read with commas between them. -/
theorem afterParen_items {fuel : Nat} {start : Range} {ts : List Token}
    (h : nextIs .rightParen ts = false) (hop : ∀ symbol, nextIs (.operator symbol) ts = false) :
    afterParen (fuel + 1) start ts = (do
      let (items, ts) ← commaSeparated (expression fuel 0) (ts.length + 1) ts
      let (stop, ts) ← expectMark .rightParen ts
      match items with
      | [inner] => return (.paren (start.merge stop) inner, ts)
      | _ => return (.tuple (start.merge stop) items, ts)) := by
  rw [afterParen]
  all_goals first
    | rfl
    | rintro stop startsRow rest rfl
      simp [nextIs, nextKind] at h
    | rintro symbol range startsRow stop startsRow' rest rfl
      have := hop symbol
      simp [nextIs, nextKind] at this

theorem afterBrace_setters {fuel : Nat} {start : Range} {ts : List Token}
    (h : nextIs .rightBrace ts = false) :
    afterBrace (fuel + 1) start ts = (do
      let (base, ts) ← updateBase ts
      let (setters, ts) ← commaSeparated (setter fuel) (ts.length + 1) ts
      let (stop, ts) ← expectMark .rightBrace ts
      match base with
      | some base => return (.update (start.merge stop) base setters, ts)
      | none => return (.record (start.merge stop) setters, ts)) := by
  rw [afterBrace]
  all_goals first
    | rfl
    | rintro stop startsRow rest rfl
      simp [nextIs, nextKind] at h

/-- Expressions with commas between them are read back to the same expressions. -/
theorem exprs_readBack (fuel : Nat) (rest : List Token) {es : List Expr} {own : List Token}
    {close : Kind} (hclose : close = .rightParen ∨ close = .rightBracket)
    (hown : SpelledBy (commas (es.map ([part <| .expr ·])) ++ [token close]) own) (hne : es ≠ [])
    (hcol : Columned (own ++ rest))
    (ih : ∀ e ∈ es, ∀ tokens, (Node.expr e).SpelledBy tokens → Columned tokens →
      ExprReadsBack e tokens)
    (hfuel : 8 * own.length ≤ fuel) :
    startsExpr (own ++ rest) = true ∧
      ∃ es' t, commaSeparated (expression fuel 0) ((own ++ rest).length + 1) (own ++ rest) =
          .ok (es', t :: rest) ∧ t.kind = close ∧
        es'.map Expr.unplaced = es.map Expr.unplaced := by
  have hitem : ∀ e ∈ es, ∀ tokens, SpelledBy [part (.expr e)] tokens → tokens <:+: own →
      tokens.length < own.length →
        ReadsBack Expr.unplaced (fun rest => Columned rest ∧ EndsExpr rest) (expression fuel 0)
          tokens e := by
    intro e he tokens htokens hin hlt
    have hcol' : Columned tokens :=
      hcol.subset (List.Subset.trans hin.subset (List.subset_append_left own rest))
    exact (ih e he tokens (spelled_part_singleton.mp htokens) hcol').expression fuel (by omega)
  refine ⟨bracketed_starts (startsExpr ·) hown hne
    (fun e _ tokens he ts => expr_starts (spelled_part_singleton.mp he) ts) rest,
    bracketed_readsBack _ rest hown hne hitem ?_ ?_ ?_⟩
  · -- a comma and the closing mark both end an expression
    intro t ts hts ht
    refine ⟨hcol.subset hts.subset, endsExpr_of_kind ?_⟩
    rcases ht with ht | ht
    · exact .inl ht
    · rcases hclose with rfl | rfl
      · exact .inr (.inl ht)
      · exact .inr (.inr (.inl ht))
  · rcases hclose with rfl | rfl <;> simp
  · rw [List.length_append]
    omega

/-! ## Setters -/

theorem part_value_mem_items (s : Setter) : part (.expr s.value) ∈ s.items := by
  simp [Setter.items]

/-- The setter of a field is read back when its value is. -/
theorem setter_readsBack {s : Setter} (h : SpelledBy s.items own) (hcol : Columned own)
    (ih : ∀ tokens, (Node.expr s.value).SpelledBy tokens → Columned tokens →
      ExprReadsBack s.value tokens)
    {fuel : Nat} (hfuel : 8 * own.length ≤ fuel) :
    ReadsBack Setter.unplaced (fun rest => Columned rest ∧ EndsExpr rest) (setter fuel) own s := by
  rcases spelled_part.mp h with ⟨front, more, rfl, hname, hmore⟩
  rcases spelledBy_name hname with ⟨t, rfl, ht⟩
  rcases spelled_token.mp hmore with ⟨eq, value, rfl, heq, hvalue⟩
  simp only [List.length_append, List.length_cons, List.length_nil] at hfuel
  obtain ⟨fuel, rfl⟩ : ∃ n, fuel = n + 1 := ⟨fuel - 1, by omega⟩
  have hcol' : Columned value := hcol.subset (by simp)
  intro rest hrest
  rcases (ih value (spelled_part_singleton.mp hvalue) hcol').expression fuel (by omega) rest hrest
    with ⟨e', hread, he⟩
  refine ⟨.mk ⟨s.field.value, t.range⟩ e', ?_, ?_⟩
  · rw [List.append_assoc, List.singleton_append, List.cons_append, setter]
    exact bind_ok_iff.mpr ⟨_, lowerName_cons ht _ _, bind_ok_iff.mpr
      ⟨_, expect_cons heq _ _, bind_ok_iff.mpr ⟨_, hread, rfl⟩⟩⟩
  · simp [Setter.unplaced, Located.unplaced, Setter.field, Setter.value, he]

theorem setter_starts {s : Setter} (h : SpelledBy s.items own) (ts : List Token) :
    ∃ t eq rest, own ++ ts = t :: eq :: rest ∧ t.kind = .lower [] s.field.value ∧
      eq.kind = .equals := by
  rcases spelled_part.mp h with ⟨front, more, rfl, hname, hmore⟩
  rcases spelledBy_name hname with ⟨t, rfl, ht⟩
  rcases spelled_token.mp hmore with ⟨eq, value, rfl, heq, -⟩
  exact ⟨t, eq, value ++ ts, rfl, ht, heq⟩

/-- Setters with commas between them are read back to the same setters. -/
theorem setters_readBack (fuel : Nat) (rest : List Token) {ss : List Setter} {own : List Token}
    (hown : SpelledBy (commas (ss.map Setter.items) ++ [token .rightBrace]) own) (hne : ss ≠ [])
    (hcol : Columned (own ++ rest))
    (ih : ∀ s ∈ ss, ∀ tokens, (Node.expr s.value).SpelledBy tokens → Columned tokens →
      ExprReadsBack s.value tokens)
    (hfuel : 8 * own.length ≤ fuel) :
    ∃ ss' t, commaSeparated (setter fuel) ((own ++ rest).length + 1) (own ++ rest) =
        .ok (ss', t :: rest) ∧ t.kind = .rightBrace ∧
      ss'.map Setter.unplaced = ss.map Setter.unplaced := by
  have hitem : ∀ s ∈ ss, ∀ tokens, SpelledBy s.items tokens → tokens <:+: own →
      tokens.length < own.length →
        ReadsBack Setter.unplaced (fun rest => Columned rest ∧ EndsExpr rest) (setter fuel)
          tokens s := by
    intro s hs tokens htokens hin hlt
    have hcol' : Columned tokens :=
      hcol.subset (List.Subset.trans hin.subset (List.subset_append_left own rest))
    exact setter_readsBack htokens hcol' (ih s hs) (by omega)
  refine bracketed_readsBack _ rest hown hne hitem ?_ (by simp) (by rw [List.length_append]; omega)
  -- as in a list, a comma and the closing brace end the value of a setter
  intro t ts hts ht
  refine ⟨hcol.subset hts.subset, endsExpr_of_kind ?_⟩
  exact ht.imp_right fun ht => .inr (.inr (.inl ht))

/-! ## Parentheses and braces -/

/-- Two or more items are a tuple, a single one is in parentheses. -/
theorem afterParen_readsBack (fuel : Nat) (start : Range) (rest : List Token) {es : List Expr}
    (hown : SpelledBy (commas (es.map ([part <| .expr ·])) ++ [token .rightParen]) own)
    (hne : es ≠ []) (hcol : Columned (own ++ rest))
    (ih : ∀ e ∈ es, ∀ tokens, (Node.expr e).SpelledBy tokens → Columned tokens →
      ExprReadsBack e tokens)
    (hfuel : 8 * own.length ≤ fuel) :
    ∃ es' r, es'.map Expr.unplaced = es.map Expr.unplaced ∧
      afterParen (fuel + 1) start (own ++ rest) = .ok (match es' with
        | [inner] => (.paren r inner, rest)
        | _ => (.tuple r es', rest)) := by
  rcases exprs_readBack fuel rest (.inl rfl) hown hne hcol ih hfuel with
    ⟨hstarts, es', t, hread, ht, hes⟩
  refine ⟨es', start.merge t.range, hes, ?_⟩
  rw [afterParen_items (not_nextIs_of_startsExpr hstarts rfl)
    fun _ => not_nextIs_of_startsExpr hstarts rfl]
  refine bind_ok_iff.mpr ⟨_, hread, bind_ok_iff.mpr ⟨_, expect_cons ht _ _, ?_⟩⟩
  rcases es' with _ | ⟨a, _ | ⟨b, es'⟩⟩ <;> rfl

/-- Behind its brace a record is read back. -/
theorem afterBrace_record (fuel : Nat) (start : Range) (rest : List Token) {ss : List Setter}
    (hown : SpelledBy (commas (ss.map Setter.items) ++ [token .rightBrace]) own) (hne : ss ≠ [])
    (hcol : Columned (own ++ rest))
    (ih : ∀ s ∈ ss, ∀ tokens, (Node.expr s.value).SpelledBy tokens → Columned tokens →
      ExprReadsBack s.value tokens)
    (hfuel : 8 * own.length ≤ fuel) :
    ∃ ss' r, afterBrace (fuel + 1) start (own ++ rest) = .ok (.record r ss', rest) ∧
      ss'.map Setter.unplaced = ss.map Setter.unplaced := by
  rcases setters_readBack fuel rest hown hne hcol ih hfuel with ⟨ss', t, hread, ht, hss⟩
  refine ⟨ss', start.merge t.range, ?_, hss⟩
  -- a field and an equals sign come first: no record is updated
  have hfirst := bracketed_starts (fun ts => ∃ t eq more, ts = t :: eq :: more ∧
    (∃ name, t.kind = .lower [] name) ∧ eq.kind = .equals) hown hne (fun s _ tokens hs ts => by
      rcases setter_starts hs ts with ⟨t, eq, more, h, ht, heq⟩
      exact ⟨t, eq, more, h, ⟨_, ht⟩, heq⟩) rest
  rcases hfirst with ⟨u, eq, more, hts, ⟨name, hu⟩, heq⟩
  have hbase : updateBase (own ++ rest) = .ok (none, own ++ rest) := by
    rw [updateBase, if_neg (by simp [hts, nextIs, nextKind, heq])]
    rfl
  rw [afterBrace_setters (by simp [hts, nextIs, nextKind, hu])]
  exact bind_ok_iff.mpr ⟨_, hbase, bind_ok_iff.mpr ⟨_, hread, bind_ok_iff.mpr
    ⟨_, expect_cons ht _ _, rfl⟩⟩⟩

/-- Behind its brace an update is read back, base and setters. -/
theorem afterBrace_update (fuel : Nat) (start : Range) (rest : List Token) {ss : List Setter}
    {base : String} {t pipe : Token}
    (ht : t.kind = .lower [] base) (hpipe : pipe.kind = .pipe)
    (hown : SpelledBy (commas (ss.map Setter.items) ++ [token .rightBrace]) own) (hne : ss ≠ [])
    (hcol : Columned (own ++ rest))
    (ih : ∀ s ∈ ss, ∀ tokens, (Node.expr s.value).SpelledBy tokens → Columned tokens →
      ExprReadsBack s.value tokens)
    (hfuel : 8 * own.length ≤ fuel) :
    ∃ ss' r, afterBrace (fuel + 1) start (t :: pipe :: (own ++ rest)) =
        .ok (.update r ⟨base, t.range⟩ ss', rest) ∧
      ss'.map Setter.unplaced = ss.map Setter.unplaced := by
  rcases setters_readBack fuel rest hown hne hcol ih hfuel with ⟨ss', stop, hread, hstop, hss⟩
  refine ⟨ss', start.merge stop.range, ?_, hss⟩
  have hbase : updateBase (t :: pipe :: (own ++ rest)) =
      .ok (some ⟨base, t.range⟩, own ++ rest) := by
    rw [updateBase, if_pos (by simp [hpipe])]
    exact bind_ok_iff.mpr ⟨_, lowerName_cons ht _ _, rfl⟩
  rw [afterBrace_setters (by simp [nextIs, nextKind, ht])]
  exact bind_ok_iff.mpr ⟨_, hbase, bind_ok_iff.mpr ⟨_, hread, bind_ok_iff.mpr
    ⟨_, expect_cons hstop _ _, rfl⟩⟩⟩

/-! ## Records and arguments -/

/-- Where no field follows, none is taken. -/
theorem accesses_of_endsAtom {e : Expr} {rest : List Token} (h : EndsAtom rest) :
    accesses e rest = (e, rest) := by
  unfold accesses
  split
  · simp [EndsAtom, nextIs, nextKind] at h
  · rfl

theorem atom_literal {t : Token} {l : Literal} (ht : t.kind = l.kind)
    (hl : l.isNegative = false) (fuel indent : Nat) (rest : List Token) :
    atom (fuel + 1) indent (t :: rest) = .ok (accesses (.literal t.range l) rest) := by
  rcases t with ⟨kind, range, startsRow⟩
  obtain rfl : kind = l.kind := ht
  cases l with
  | int n | hex n =>
    have hn : ((n.toNat : Nat) : Int) = n := by
      simp only [Literal.isNegative, decide_eq_false_iff_not] at hl
      omega
    simp only [Literal.kind, atom, hn]
  | float x | string x | char x => simp only [Literal.kind, atom]

section

variable {r : Range}

/-- An expression in parentheses is read back. -/
theorem paren_readsBack {inner : Expr} (h : (Node.expr (.paren r inner)).SpelledBy own)
    (hcol : Columned own) (ih : ExprPartsReadBack (.paren r inner)) :
    ReadsOwner (.paren r inner) own := by
  intro fuel hfuel rest hrest
  rcases spelled_token.mp h.2 with ⟨⟨kind, start, startsRow⟩, more, rfl, rfl, hmore⟩
  have hsingle : SpelledBy (commas ([inner].map ([part <| .expr ·])) ++ [token .rightParen])
      more := by simpa using hmore
  rw [List.length_cons] at hfuel
  -- one unit of fuel is for the atom, and one for what is behind its parenthesis
  obtain ⟨fuel, rfl⟩ : ∃ n, fuel = n + 2 := ⟨fuel - 2, by omega⟩
  rcases afterParen_readsBack fuel start rest hsingle (by simp)
    (columned_append.mpr ⟨(columned_cons.mp hcol).2, hrest⟩)
    (fun e he tokens htokens => ih (by simp_all [Expr.items]) htokens) (by omega) with
    ⟨es', r', hes, hread⟩
  obtain ⟨inner', rfl, hinner⟩ : ∃ e', es' = [e'] ∧ e'.unplaced = inner.unplaced := by
    simpa [List.map_eq_singleton_iff] using hes
  refine ⟨.paren r' inner', ?_, by simp [Expr.unplaced, hinner]⟩
  rw [List.cons_append, atom]
  exact bind_ok_iff.mpr ⟨_, hread, rfl⟩

/-- A tuple is read back. -/
theorem tuple_readsBack {items : List Expr} (h : (Node.expr (.tuple r items)).SpelledBy own)
    (hcol : Columned own) (ih : ExprPartsReadBack (.tuple r items)) :
    ReadsOwner (.tuple r items) own := by
  intro fuel hfuel rest hrest
  rcases spelled_token.mp h.2 with ⟨⟨kind, start, startsRow⟩, more, rfl, rfl, hmore⟩
  have hapt : 2 ≤ items.length := h.1.1
  rw [List.length_cons] at hfuel
  obtain ⟨fuel, rfl⟩ : ∃ n, fuel = n + 2 := ⟨fuel - 2, by omega⟩
  rcases afterParen_readsBack fuel start rest hmore (by rintro rfl; simp at hapt)
    (columned_append.mpr ⟨(columned_cons.mp hcol).2, hrest⟩)
    (fun e he tokens htokens => ih (by simp [Expr.items, part_mem_commas_of_mem he]) htokens)
    (by omega) with ⟨es', r', hes, hread⟩
  have hlen : es'.length = items.length := by simpa using congrArg List.length hes
  refine ⟨.tuple r' es', ?_, by simp [Expr.unplaced, Expr.unplacedAll_eq, hes]⟩
  rw [List.cons_append, atom]
  refine bind_ok_iff.mpr ⟨_, hread, ?_⟩
  -- as many items are read back as were written, so it is no parenthesis around one
  rcases es' with _ | ⟨a, _ | ⟨b, es'⟩⟩
  · rw [List.length_nil] at hlen
    omega
  · rw [List.length_singleton] at hlen
    omega
  · rfl

/-- A record is read back. -/
theorem record_readsBack {setters : List Setter}
    (h : (Node.expr (.record r setters)).SpelledBy own) (hcol : Columned own)
    (ih : ExprPartsReadBack (.record r setters)) : ReadsOwner (.record r setters) own := by
  intro fuel hfuel rest hrest
  rcases spelled_token.mp h.2 with ⟨⟨kind, start, startsRow⟩, more, rfl, rfl, hmore⟩
  rw [List.length_cons] at hfuel
  obtain ⟨fuel, rfl⟩ : ∃ n, fuel = n + 2 := ⟨fuel - 2, by omega⟩
  -- an empty record has no setters to read, and its closing brace is looked for first
  by_cases hne : setters = []
  · subst hne
    rcases spelled_token.mp hmore with ⟨⟨kind, stop, startsRow'⟩, _, rfl, rfl, hnil⟩
    obtain rfl := spelled_nil.mp hnil
    exact ⟨.record (start.merge stop) [], by simp [atom, afterBrace], rfl⟩
  rcases afterBrace_record fuel start rest hmore hne
    (columned_append.mpr ⟨(columned_cons.mp hcol).2, hrest⟩)
    (fun s hs tokens htokens => ih (by
      simp [Expr.items, part_mem_commas_of_mem hs (part_value_mem_items s)]) htokens)
    (by omega) with ⟨ss', r', hread, hss⟩
  refine ⟨.record r' ss', ?_, by simp [Expr.unplaced, Expr.unplacedSetters_eq, hss]⟩
  rw [List.cons_append, atom]
  exact bind_ok_iff.mpr ⟨_, hread, rfl⟩

/-- A record update is read back. -/
theorem update_readsBack {base : Located String} {setters : List Setter}
    (h : (Node.expr (.update r base setters)).SpelledBy own) (hcol : Columned own)
    (ih : ExprPartsReadBack (.update r base setters)) :
    ReadsOwner (.update r base setters) own := by
  intro fuel hfuel rest hrest
  rcases spelled_token.mp h.2 with ⟨⟨kind, start, startsRow⟩, more, rfl, rfl, hmore⟩
  rcases spelled_part.mp hmore with ⟨front, back, rfl, hname, hback⟩
  rcases spelledBy_name hname with ⟨t, rfl, ht⟩
  rcases spelled_token.mp hback with ⟨pipe, more, rfl, hpipe, hinner⟩
  simp only [List.length_append, List.length_cons, List.length_nil] at hfuel
  simp only [columned_cons, columned_append] at hcol
  obtain ⟨fuel, rfl⟩ : ∃ n, fuel = n + 2 := ⟨fuel - 2, by omega⟩
  rcases afterBrace_update fuel start rest ht hpipe hinner h.1.1
    (columned_append.mpr ⟨hcol.2.2.2, hrest⟩)
    (fun s hs tokens htokens => ih (by
      simp [Expr.items, part_mem_commas_of_mem hs (part_value_mem_items s)]) htokens)
    (by omega) with ⟨ss', r', hread, hss⟩
  refine ⟨.update r' ⟨base.value, t.range⟩ ss', ?_,
    by simp [Expr.unplaced, Expr.unplacedSetters_eq, hss, Located.unplaced]⟩
  rw [List.cons_append, atom]
  exact bind_ok_iff.mpr ⟨_, hread, rfl⟩

/-- Fields are taken one by one of what is read before them. -/
theorem access_readsBack {owner : Expr} {field : Located String}
    (h : (Node.expr (.access r owner field)).SpelledBy own) (hcol : Columned own)
    (ih : ExprPartsReadBack (.access r owner field)) : ReadsOwner (.access r owner field) own := by
  intro fuel hfuel rest hrest
  rcases spelled_part.mp h.2 with ⟨front, more, rfl, howner, hmore⟩
  rcases spelled_part.mp hmore with ⟨back, _, rfl, hfield, hnil⟩
  obtain rfl := spelled_nil.mp hnil
  rcases spelled_token.mp hfield.2 with ⟨⟨kind, range, startsRow⟩, _, rfl, rfl, hnil⟩
  obtain rfl := spelled_nil.mp hnil
  simp only [List.length_append, List.length_cons] at hfuel
  simp only [columned_cons, columned_append] at hcol
  -- the owner is read without its fields, which are left to the reader of accesses
  rcases (ih (by simp [Expr.items]) howner hcol.1).owner h.1.1 fuel (by omega)
    (⟨.dotField field.value, range, startsRow⟩ :: rest)
    (columned_cons.mpr ⟨hcol.2.1.1, hrest⟩) with ⟨o', hread, ho⟩
  refine ⟨.access (o'.range.merge range) o' ⟨field.value, ⟨range.start.after '.', range.stop⟩⟩, ?_,
    by simp [Expr.unplaced, ho, Located.unplaced]⟩
  rw [List.append_assoc]
  exact hread

end

/-- Whatever fields can be read of is read back, when its parts are. -/
theorem owner_readsBack (h : (Node.expr e).SpelledBy own) (hcol : Columned own)
    (ih : ExprPartsReadBack e) (howner : e.isOwner) : ReadsOwner e own := by
  intro fuel hfuel rest hrest
  have hlength := List.length_pos_iff.mpr h.ne_nil
  obtain ⟨fuel, rfl⟩ : ∃ n, fuel = n + 2 := ⟨fuel - 2, by omega⟩
  have hitems : SpelledBy e.items own := h.2
  cases e with
  | unit =>
    rcases spelled_token.mp hitems with ⟨⟨kind, start, startsRow⟩, _, rfl, rfl, hmore⟩
    rcases spelled_token.mp hmore with ⟨⟨kind, stop, startsRow'⟩, _, rfl, rfl, hnil⟩
    obtain rfl := spelled_nil.mp hnil
    exact ⟨.unit (start.merge stop), by simp [atom, afterParen], rfl⟩
  | operatorFn _ symbol =>
    rcases spelled_token.mp hitems with ⟨⟨kind, start, startsRow⟩, _, rfl, rfl, hmore⟩
    rcases spelled_token.mp hmore with ⟨⟨kind, _, startsRow'⟩, _, rfl, rfl, hlast⟩
    rcases spelled_token.mp hlast with ⟨⟨kind, stop, startsRow''⟩, _, rfl, rfl, hnil⟩
    obtain rfl := spelled_nil.mp hnil
    exact ⟨.operatorFn (start.merge stop) symbol, by simp [atom, afterParen], rfl⟩
  | literal =>
    rcases spelled_token.mp hitems with ⟨t, _, rfl, ht, hnil⟩
    obtain rfl := spelled_nil.mp hnil
    exact ⟨_, atom_literal ht h.1.1 _ _ _, rfl⟩
  | var _ name =>
    rcases spelled_token.mp hitems with ⟨⟨kind, range, startsRow⟩, _, rfl, ht, hnil⟩
    obtain rfl := spelled_nil.mp hnil
    obtain rfl : kind = name.kind := ht
    refine ⟨.var range name, ?_, rfl⟩
    unfold QualifiedName.kind
    split <;> simp [atom]
  | accessor _ field =>
    rcases spelled_token.mp hitems with ⟨⟨kind, range, startsRow⟩, _, rfl, rfl, hnil⟩
    obtain rfl := spelled_nil.mp hnil
    exact ⟨.accessor range field, by simp [atom], rfl⟩
  | paren => exact paren_readsBack h hcol ih _ hfuel rest hrest
  | tuple => exact tuple_readsBack h hcol ih _ hfuel rest hrest
  | record => exact record_readsBack h hcol ih _ hfuel rest hrest
  | update => exact update_readsBack h hcol ih _ hfuel rest hrest
  | access => exact access_readsBack h hcol ih _ hfuel rest hrest
  | app | binary | negate | list | cond | case | lambda => cases howner

/-- Every argument is read back, when its parts are. -/
theorem argument_readsBack (h : (Node.expr e).SpelledBy own) (hcol : Columned own)
    (ih : ExprPartsReadBack e) (howner : e.isOwner → ReadsOwner e own)
    (hargument : e.isArgument) : ReadsArgument e own := by
  intro fuel hfuel rest hrest
  have hitems : SpelledBy e.items own := h.2
  by_cases hisOwner : e.isOwner
  · -- no field is taken of what is read as an owner here
    rcases howner hisOwner fuel hfuel rest hrest.1 with ⟨e', hread, he⟩
    exact ⟨e', by rw [hread, accesses_of_endsAtom hrest.2], he⟩
  have hlength := List.length_pos_iff.mpr h.ne_nil
  obtain ⟨fuel, rfl⟩ : ∃ n, fuel = n + 1 := ⟨fuel - 1, by omega⟩
  cases e with
  | negate _ inner =>
    rcases spelled_token.mp hitems with ⟨⟨kind, start, startsRow⟩, more, rfl, rfl, hmore⟩
    rw [List.length_cons] at hfuel
    have hinner := ih (by simp [Expr.items]) (spelled_part_singleton.mp hmore)
      (columned_cons.mp hcol).2
    rcases hinner.argument h.1.1 fuel (by omega) rest hrest with ⟨inner', hread, hi⟩
    refine ⟨.negate (start.merge inner'.range) inner', ?_, by simp [Expr.unplaced, hi]⟩
    rw [List.cons_append, atom]
    exact bind_ok_iff.mpr ⟨_, hread, rfl⟩
  | list _ items =>
    rcases spelled_token.mp hitems with ⟨⟨kind, start, startsRow⟩, more, rfl, rfl, hmore⟩
    rw [List.length_cons] at hfuel
    by_cases hne : items = []
    · subst hne
      rcases spelled_token.mp hmore with ⟨⟨kind, stop, startsRow'⟩, _, rfl, rfl, hnil⟩
      obtain rfl := spelled_nil.mp hnil
      exact ⟨.list (start.merge stop) [], by simp [atom], rfl⟩
    rcases exprs_readBack fuel rest (.inr rfl) hmore hne
      (columned_append.mpr ⟨(columned_cons.mp hcol).2, hrest.1⟩)
      (fun e he tokens htokens => ih (by simp [Expr.items, part_mem_commas_of_mem he]) htokens)
      (by omega) with ⟨hstarts, es', t, hread, ht, hes⟩
    refine ⟨.list (start.merge t.range) es', ?_, by simp [Expr.unplaced, Expr.unplacedAll_eq, hes]⟩
    rw [List.cons_append, atom_bracket (not_nextIs_of_startsExpr hstarts rfl)]
    exact bind_ok_iff.mpr ⟨_, hread, bind_ok_iff.mpr ⟨_, expect_cons ht _ _, rfl⟩⟩
  | app | binary | cond | case | lambda => cases hargument
  | _ => exact absurd rfl hisOwner

/-! ## Operands -/

section

variable {r : Range}

theorem operand_of_startsAtom {fuel : Nat} {ts : List Token} (h : startsAtom ts = true)
    (indent : Nat) : operand (fuel + 1) indent ts = (do
      let (fn, ts) ← atom fuel indent ts
      let more (ts : List Token) : Bool := !layoutEnds indent ts && startsAtom ts
      let (args, ts) ← repeatedly more (atom fuel indent) ts.length ts
      return (applied fn args, ts)) := by
  rw [operand]
  all_goals
    rintro start startsRow more rfl
    simp [startsAtom, nextKind] at h

/-- The arguments of a function announce themselves, and the last one ends before what follows. -/
theorem args_readBack (fuel : Nat) (rest : List Token) {args : List Expr}
    (hown : SpelledBy (args.map (part ∘ .expr)) own) (hne : args ≠ [])
    (hargs : ∀ a ∈ args, a.isArgument) (hcol : Columned (own ++ rest))
    (ih : ∀ a ∈ args, ∀ tokens, (Node.expr a).SpelledBy tokens → Columned tokens →
      ExprReadsBack a tokens)
    (hfuel : 8 * own.length ≤ fuel) (hrest : EndsOperand rest) :
    EndsAtom (own ++ rest) ∧ ∃ args',
      repeatedly (fun ts => !layoutEnds 0 ts && startsAtom ts) (atom fuel 0) (own ++ rest).length
          (own ++ rest) = .ok (args', rest) ∧
        args'.map Expr.unplaced = args.map Expr.unplaced := by
  -- each argument is announced by its first token, which also ends the argument before it
  have hannounced : ∀ a ∈ args, ∀ tokens ts, (Node.expr a).SpelledBy tokens →
      tokens ++ ts <:+ own ++ rest →
      (!layoutEnds 0 (tokens ++ ts) && startsAtom (tokens ++ ts)) = true ∧
        Columned (tokens ++ ts) ∧ EndsAtom (tokens ++ ts) := by
    intro a ha tokens ts htokens hts
    have hcol' := hcol.subset hts.subset
    have hstarts := argument_starts htokens (hargs a ha) ts
    exact ⟨by simp [layoutEnds_zero_append htokens.ne_nil hcol', hstarts], hcol',
      endsAtom_of_startsAtom hstarts⟩
  have hitem : ∀ a ∈ args, ∀ tokens, (Node.expr a).SpelledBy tokens → tokens <:+: own →
      ReadsBack Expr.unplaced (fun rest => Columned rest ∧ EndsAtom rest) (atom fuel 0)
        tokens a := by
    intro a ha tokens htokens hin
    have hlength := hin.length_le
    have hcol' := hcol.subset (List.Subset.trans hin.subset (List.subset_append_left own rest))
    exact (ih a ha tokens htokens hcol').argument (hargs a ha) fuel (by omega)
  refine ⟨?_, repeatedly_readsBack _ rest hown hitem hannounced
    ⟨(columned_append.mp hcol).2, hrest.2⟩ (by simp [hrest.1]) (by simp)⟩
  rcases List.exists_cons_of_ne_nil hne with ⟨a, args, rfl⟩
  rcases spelled_part.mp hown with ⟨tokens, others, rfl, ha, -⟩
  have hall : tokens ++ (others ++ rest) <:+ (tokens ++ others) ++ rest := by simp
  rw [List.append_assoc]
  exact (hannounced a List.mem_cons_self tokens _ ha hall).2.2

/-- An application is read back, function and arguments. -/
theorem app_readsBack {fn : Expr} {args : List Expr}
    (h : (Node.expr (.app r fn args)).SpelledBy own) (hcol : Columned own)
    (ih : ExprPartsReadBack (.app r fn args)) : ReadsOperand (.app r fn args) own := by
  rintro fuel hfuel rest ⟨hrest, hfollows⟩
  obtain ⟨fuel, rfl⟩ : ∃ n, fuel = n + 1 := ⟨fuel - 1, by omega⟩
  rcases spelled_part.mp h.2 with ⟨front, back, rfl, hfn, hback⟩
  have hapt : fn.isArgument ∧ args ≠ [] ∧ ∀ a ∈ args, a.isArgument := h.1.1
  rw [List.length_append] at hfuel
  rw [columned_append] at hcol
  have hcolBack : Columned (back ++ rest) := columned_append.mpr ⟨hcol.2, hrest⟩
  rcases args_readBack fuel rest hback hapt.2.1 hapt.2.2 hcolBack
    (fun a ha tokens htokens => ih (by simp [Expr.items, ha]) htokens) (by omega) hfollows.1 with
    ⟨hends, args', hread, hargs⟩
  -- the function ends where its first argument starts
  rcases (ih (by simp [Expr.items]) hfn hcol.1).argument hapt.1 fuel (by omega) (back ++ rest)
    ⟨hcolBack, hends⟩ with ⟨fn', hread', hfn'⟩
  rw [List.append_assoc, operand_of_startsAtom (argument_starts hfn hapt.1 _)]
  refine ⟨applied fn' args', bind_ok_iff.mpr ⟨_, hread', bind_ok_iff.mpr ⟨_, hread, rfl⟩⟩, ?_⟩
  have hne : args' ≠ [] := by
    rintro rfl
    exact hapt.2.1 (List.map_eq_nil_iff.mp hargs.symm)
  rw [applied, List.getLast?_eq_some_getLast hne]
  simp [Expr.unplaced, Expr.unplacedAll_eq, hargs, hfn']

/-- A conditional is read back, up to the end of its second branch. -/
theorem cond_readsBack {condition thenBranch elseBranch : Expr}
    (h : (Node.expr (.cond r condition thenBranch elseBranch)).SpelledBy own)
    (hcol : Columned own) (ih : ExprPartsReadBack (.cond r condition thenBranch elseBranch)) :
    ReadsOperand (.cond r condition thenBranch elseBranch) own := by
  rintro fuel hfuel rest ⟨hrest, hfollows⟩
  obtain ⟨fuel, rfl⟩ : ∃ n, fuel = n + 1 := ⟨fuel - 1, by omega⟩
  rcases spelled_token.mp h.2 with ⟨⟨kind, start, startsRow⟩, more, rfl, rfl, hmore⟩
  rcases spelled_part.mp hmore with ⟨first, more, rfl, hcondition, hthenWord⟩
  rcases spelled_token.mp hthenWord with ⟨t, more, rfl, ht, hmore'⟩
  rcases spelled_part.mp hmore' with ⟨second, more, rfl, hthen, helseWord⟩
  rcases spelled_token.mp helseWord with ⟨u, third, rfl, hu, hlast⟩
  have helse := spelled_part_singleton.mp hlast
  simp only [List.length_append, List.length_cons] at hfuel
  simp only [columned_cons, columned_append] at hcol
  -- the keywords end the condition and the first branch; what follows ends the second
  rcases (ih (by simp [Expr.items]) hcondition (by simp [hcol])).expression fuel (by omega)
    (t :: (second ++ u :: (third ++ rest)))
    ⟨by simp [hcol, hrest], endsExpr_of_kind (by simp [ht])⟩ with ⟨c', hc, hc'⟩
  rcases (ih (by simp [Expr.items]) hthen (by simp [hcol])).expression fuel (by omega)
    (u :: (third ++ rest)) ⟨by simp [hcol, hrest], endsExpr_of_kind (by simp [hu])⟩ with
    ⟨a', ha, ha'⟩
  rcases (ih (by simp [Expr.items]) helse (by simp [hcol])).expression fuel (by omega) rest
    ⟨hrest, hfollows.endsExpr rfl⟩ with ⟨b', hb, hb'⟩
  refine ⟨.cond (start.merge b'.range) c' a' b', ?_, by simp [Expr.unplaced, hc', ha', hb']⟩
  simp only [List.cons_append, List.append_assoc, operand]
  exact bind_ok_iff.mpr ⟨_, hc, bind_ok_iff.mpr ⟨_, expect_cons ht _ _, bind_ok_iff.mpr
    ⟨_, ha, bind_ok_iff.mpr ⟨_, expect_cons hu _ _, bind_ok_iff.mpr ⟨_, hb, rfl⟩⟩⟩⟩⟩

/-- The parameters of a function end before its arrow. -/
theorem params_readBack (fuel : Nat) (rest : List Token) {params : List Pattern}
    (hown : SpelledBy (params.map (part ∘ .pattern)) own) (hparams : ∀ p ∈ params, p.isAtom)
    (hrest : nextIs .arrow rest = true) (hfuel : own.length ≤ fuel) :
    ∃ params', repeatedly (!nextIs .arrow ·) readAtomPattern fuel (own ++ rest) =
        .ok (params', rest) ∧ params'.map Pattern.unplaced = params.map Pattern.unplaced := by
  have hitem : ∀ p ∈ params, ∀ tokens, (Node.pattern p).SpelledBy tokens → tokens <:+: own →
      ReadsBack Pattern.unplaced (fun _ => True) readAtomPattern tokens p := by
    intro p hp tokens htokens _ rest' _
    exact (pattern_readsBack htokens).atom (hparams p hp) _
      (by rw [fuelFor, List.length_append]; omega) rest' trivial
  refine repeatedly_readsBack fuel rest hown hitem ?_ trivial (by simp [hrest]) hfuel
  intro p _ tokens ts htokens _
  rw [not_nextIs_of_startsPatternAtom (pattern_starts htokens ts) rfl]
  exact ⟨rfl, trivial⟩

/-- An anonymous function is read back, up to the end of its body. -/
theorem lambda_readsBack {params : List Pattern} {body : Expr}
    (h : (Node.expr (.lambda r params body)).SpelledBy own) (hcol : Columned own)
    (ih : ExprPartsReadBack (.lambda r params body)) :
    ReadsOperand (.lambda r params body) own := by
  rintro fuel hfuel rest ⟨hrest, hfollows⟩
  obtain ⟨fuel, rfl⟩ : ∃ n, fuel = n + 1 := ⟨fuel - 1, by omega⟩
  rcases spelled_token.mp h.2 with ⟨⟨kind, start, startsRow⟩, more, rfl, rfl, hmore⟩
  rcases spelled_append.mp hmore with ⟨front, more, rfl, hparams, harrow⟩
  rcases spelled_token.mp harrow with ⟨arrow, back, rfl, harrowKind, hlast⟩
  have hapt : params ≠ [] ∧ ∀ p ∈ params, p.isAtom := h.1.1
  simp only [List.length_append, List.length_cons] at hfuel
  simp only [columned_cons, columned_append] at hcol
  rcases params_readBack ((front ++ arrow :: (back ++ rest)).length + 1) (arrow :: (back ++ rest))
    hparams hapt.2 (by simp [harrowKind]) (by rw [List.length_append]; omega) with
    ⟨params', hread, hparams'⟩
  rcases (ih (by simp [Expr.items]) (spelled_part_singleton.mp hlast)
    (by simp [hcol])).expression fuel (by omega) rest ⟨hrest, hfollows.endsExpr rfl⟩ with
    ⟨body', hread', hbody'⟩
  -- the parser refuses a lambda without parameters
  have hne : params'.isEmpty = false := by
    rw [List.isEmpty_eq_false_iff]
    rintro rfl
    exact hapt.1 (List.map_eq_nil_iff.mp hparams'.symm)
  refine ⟨.lambda (start.merge body'.range) params' body', ?_,
    by simp [Expr.unplaced, hparams', hbody']⟩
  simp only [List.cons_append, List.append_assoc, operand]
  refine bind_ok_iff.mpr ⟨_, hread, ?_⟩
  simp only [hne, List.tail_cons]
  exact bind_ok_iff.mpr ⟨_, hread', rfl⟩

end

/-- Everything but operators is read as one operand. -/
theorem operand_readsBack (h : (Node.expr e).SpelledBy own) (hcol : Columned own)
    (ih : ExprPartsReadBack e) (hargument : e.isArgument → ReadsArgument e own)
    (hbinary : ∀ r symbol left right, e ≠ .binary r symbol left right) : ReadsOperand e own := by
  by_cases hisArgument : e.isArgument
  · rintro fuel hfuel rest ⟨hrest, hfollows⟩
    obtain ⟨fuel, rfl⟩ : ∃ n, fuel = n + 1 := ⟨fuel - 1, by omega⟩
    rcases hargument hisArgument fuel (by omega) rest ⟨hrest, hfollows.1.2⟩ with ⟨e', hread, he⟩
    refine ⟨e', ?_, he⟩
    rw [operand_of_startsAtom (argument_starts h hisArgument rest)]
    refine bind_ok_iff.mpr ⟨_, hread, bind_ok_iff.mpr ⟨([], rest), ?_, rfl⟩⟩
    cases rest <;> simp [repeatedly, hfollows.1.1]
  cases e with
  | app => exact app_readsBack h hcol ih
  | cond => exact cond_readsBack h hcol ih
  | lambda => exact lambda_readsBack h hcol ih
  | case r scrutinee bs => exact absurd rfl (h.1.2 r scrutinee bs)
  | binary r symbol left right => exact absurd rfl (hbinary r symbol left right)
  | _ => exact absurd rfl hisArgument

/-! ## Operators -/

variable {rest : List Token}

/-- Nothing that follows an expression is an operator of the levels that were asked for. -/
theorem operators_of_follows {fuel least : Nat} {e : Expr}
    (hrest : ∀ symbol, nextIs (.operator symbol) rest = true →
      (Precedence.ofSymbol symbol).level < least) :
    operators (fuel + 1) least 0 e rest = .ok (e, rest) := by
  unfold operators
  split
  · rfl
  split
  · exact if_pos (hrest _ (by simp))
  · rfl

theorem level_le_rightLeast (p : Precedence) : p.level ≤ p.rightLeast := by
  unfold Precedence.rightLeast
  split <;> omega

/-- What follows the right operand of an operator does not belong to the right operand. -/
theorem Follows.right {r : Range} {symbol : String} {left right : Expr}
    (hright : right.AtLeast (Precedence.ofSymbol symbol).rightLeast)
    (h : Follows (.binary r symbol left right) rest) : Follows right rest := by
  refine ⟨h.1, fun next hnext => ?_⟩
  rcases h.2 next hnext with ⟨hopen, hlt⟩
  have hopen : right.endsOpen = false := hopen
  cases right with
  | binary _ inner _ _ =>
    have hle := level_le_rightLeast (Precedence.ofSymbol inner)
    exact ⟨hopen, by have := hright.1; omega⟩
  | _ => exact hopen

/-- An operator is taken up behind its left operand, and those behind it are left. -/
theorem binary_readsBack {r : Range} {symbol : String} {left right : Expr}
    (h : (Node.expr (.binary r symbol left right)).SpelledBy own) (hcol : Columned own)
    (ih : ExprPartsReadBack (.binary r symbol left right)) :
    ReadsOperation (.binary r symbol left right) own := by
  intro fuel least hfuel hleast rest hrest hfollows
  rcases spelled_part.mp h.2 with ⟨front, more, rfl, hleft, hmore⟩
  rcases spelled_token.mp hmore with ⟨⟨kind, range, startsRow⟩, back, rfl, rfl, hlast⟩
  have hright := spelled_part_singleton.mp hlast
  have hapt : left.Precedes symbol ∧ right.AtLeast (Precedence.ofSymbol symbol).rightLeast := h.1.1
  simp only [List.length_append, List.length_cons] at hfuel
  simp only [columned_append, columned_cons] at hcol
  have hcolRest : Columned (⟨.operator symbol, range, startsRow⟩ :: (back ++ rest)) := by
    simp [hcol, hrest]
  -- the left operand leaves its operator, and behind the right one no operator is taken up
  have hfollowsLeft : Follows left (⟨.operator symbol, range, startsRow⟩ :: (back ++ rest)) := by
    refine ⟨by simp [EndsOperand, EndsAtom, startsAtom, nextIs, nextKind], fun next hnext => ?_⟩
    obtain rfl : symbol = next := by simpa using hnext
    exact hapt.1
  rcases (ih (by simp [Expr.items]) hleft hcol.1).operation fuel least (by omega) hleast.2 _
    hcolRest hfollowsLeft with ⟨left', count, hread, hcount, hl⟩
  obtain ⟨later, hlater⟩ : ∃ n, fuel - count = n + 1 := ⟨fuel - count - 1, by omega⟩
  rcases (ih (by simp [Expr.items]) hright hcol.2.2).operation later _ (by omega) hapt.2 rest hrest
    (hfollows.right hapt.2) with ⟨right', count', hread', hcount', hr⟩
  obtain ⟨last, hlast⟩ : ∃ n, later - count' = n + 1 := ⟨later - count' - 1, by omega⟩
  rw [hlast, operators_of_follows fun next hnext => (hfollows.2 next hnext).2] at hread'
  refine ⟨.binary (left'.range.merge right'.range) symbol left' right', count + 1, ?_,
    by simp; omega, by simp [Expr.unplaced, hl, hr]⟩
  rw [List.append_assoc, List.cons_append, hread, hlater, operators,
    if_neg (by simp [layoutEnds_zero hcolRest])]
  dsimp only
  rw [if_neg (by have := hleast.1; omega), hread', show fuel - (count + 1) = later by omega]
  rfl

/-- Every chain of operators is read back, when its parts are. -/
theorem operation_readsBack (h : (Node.expr e).SpelledBy own) (hcol : Columned own)
    (ih : ExprPartsReadBack e)
    (hoperand : (∀ r symbol left right, e ≠ .binary r symbol left right) → ReadsOperand e own) :
    ReadsOperation e own := by
  by_cases hbinary : ∃ r symbol left right, e = .binary r symbol left right
  · rcases hbinary with ⟨r, symbol, left, right, rfl⟩
    exact binary_readsBack h hcol ih
  · intro fuel least hfuel hleast rest hrest hfollows
    obtain ⟨fuel, rfl⟩ : ∃ n, fuel = n + 1 := ⟨fuel - 1, by omega⟩
    rcases hoperand (fun r symbol left right he => hbinary ⟨r, symbol, left, right, he⟩) fuel
      (by omega) rest ⟨hrest, hfollows⟩ with ⟨e', hread, he⟩
    refine ⟨e', 1, ?_, List.length_pos_iff.mpr h.ne_nil, he⟩
    rw [operation, hread]
    rfl

/-- An expression is read back when it is as a chain of operators. -/
theorem expression_readsBack (h : (Node.expr e).SpelledBy own) (hcol : Columned own)
    (hoperation : ReadsOperation e own) {fuel : Nat} (hfuel : 8 * own.length + 3 ≤ fuel) :
    ReadsBack Expr.unplaced (fun rest => Columned rest ∧ EndsExpr rest) (expression fuel 0) own
      e := by
  rintro rest ⟨hrest, hends⟩
  obtain ⟨fuel, rfl⟩ : ∃ n, fuel = n + 1 := ⟨fuel - 1, by omega⟩
  rcases hoperation fuel 0 (by omega) e.atLeast_zero rest hrest (hends.follows e) with
    ⟨e', count, hread, hcount, he⟩
  obtain ⟨last, hlast⟩ : ∃ n, fuel - count = n + 1 := ⟨fuel - count - 1, by omega⟩
  refine ⟨e', ?_, he⟩
  rw [expression, if_neg (by
    simp [layoutEnds_zero_append h.ne_nil (columned_append.mpr ⟨hcol, hrest⟩)]), hread, hlast]
  exact operators_of_follows fun symbol hnext =>
    absurd ((hends.2 symbol).symm.trans hnext) Bool.false_ne_true

/-- Tokens that spell an expression without a case are read back to it. -/
theorem expr_readsBack {e : Expr} {own : List Token} (h : (Node.expr e).SpelledBy own)
    (hcol : Columned own) : ExprReadsBack e own := by
  -- the induction is on the tree: its parts are smaller, whatever reader meets them
  have ih : ExprPartsReadBack e := by
    intro c tokens hc htokens hcol'
    have hlt : sizeOf c < sizeOf e := by
      have := Node.sizeOf_lt_of_part (n := .expr e) hc
      simpa using this
    exact expr_readsBack htokens hcol'
  have howner := owner_readsBack h hcol ih
  have hargument := argument_readsBack h hcol ih howner
  have hoperation := operation_readsBack h hcol ih (operand_readsBack h hcol ih hargument)
  exact ⟨howner, hargument, hoperation, fun _ hf => expression_readsBack h hcol hoperation hf⟩
termination_by sizeOf e

end Terse.Grammar
