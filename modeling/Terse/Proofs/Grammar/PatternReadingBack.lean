import Terse.Grammar.Pattern
import Terse.Proofs.Grammar.ReadingBack
import Terse.Proofs.Tree.Unplaced

/-!
# Patterns are read back

Tokens that spell a pattern are read back to it. How much fuel is enough depends on the number of
tokens only.
-/

namespace Terse.Grammar

open Token (Kind)
open Item (token part commas)

/-! ## First tokens -/

/-- The first one of items with commas between them is written with the front of the tokens. -/
theorem exists_first_of_commas {α : Type} {items : α → List Item} {xs : List α} {own : List Token}
    (h : SpelledBy (commas (xs.map items)) own) (hne : xs ≠ []) :
    ∃ x ∈ xs, ∃ tokens more, own = tokens ++ more ∧ SpelledBy (items x) tokens := by
  rcases List.exists_cons_of_ne_nil hne with ⟨x, xs, rfl⟩
  cases xs with
  | nil =>
    rw [List.map_singleton, Item.commas_singleton] at h
    exact ⟨x, List.mem_singleton_self x, own, [], by simp, h⟩
  | cons y xs =>
    rw [List.map_cons, List.map_cons, Item.commas_cons_cons] at h
    rcases spelled_append.mp h with ⟨tokens, more, rfl, htokens, -⟩
    exact ⟨x, List.mem_cons_self, tokens, more, rfl, htokens⟩

/-- A literal is spelled with a minus sign in front, or with a token of a literal. -/
theorem literal_first {l : Literal} {own : List Token} (h : SpelledBy l.items own) :
    ∃ t more, own = t :: more ∧ (t.kind = .minus ∨ ∃ l' : Literal, t.kind = l'.kind) := by
  unfold Literal.items at h
  split at h
  · rcases spelled_token.mp h with ⟨t, more, rfl, ht, -⟩
    exact ⟨t, more, rfl, .inl ht⟩
  split at h
  · cases h with
    | absent h =>
      rcases spelled_token.mp h with ⟨t, more, rfl, ht, -⟩
      exact ⟨t, more, rfl, .inr ⟨_, ht⟩⟩
    | present ht _ => exact ⟨_, _, rfl, .inl ht⟩
  · rcases spelled_token.mp h with ⟨t, more, rfl, ht, -⟩
    exact ⟨t, more, rfl, .inr ⟨_, ht⟩⟩

/-- Every pattern starts as one that stands as an argument. -/
theorem pattern_starts {p : Pattern} {own : List Token} (h : (Node.pattern p).SpelledBy own)
    (ts : List Token) : startsPatternAtom (own ++ ts) = true := by
  -- all forms but a literal, a cons and an alias start with a token of their own
  have hfirst : ∀ {k items us}, SpelledBy (token k :: items) us →
      (∀ t : Token, t.kind = k → startsPatternAtom [t] = true) →
      startsPatternAtom (us ++ ts) = true := by
    intro k items us hus hk
    rcases spelled_token.mp hus with ⟨t, rest, rfl, ht, -⟩
    exact hk t ht
  have hitems : SpelledBy p.items own := h.2
  cases p with
  | wild | unit | var | ctor | tuple | list | record | paren =>
    exact hfirst hitems fun t ht => by simp [startsPatternAtom, nextKind, ht]
  | literal _ value =>
    rcases literal_first hitems with ⟨t, more, rfl, ht | ⟨l, ht⟩⟩
    · simp [startsPatternAtom, nextKind, ht]
    · cases l <;> simp [startsPatternAtom, nextKind, ht, Literal.kind]
  | cons _ head _ =>
    rcases spelled_part.mp hitems with ⟨tokens, more, rfl, hhead, -⟩
    rw [List.append_assoc]
    exact pattern_starts hhead _
  | named _ inner _ =>
    rcases spelled_part.mp hitems with ⟨tokens, more, rfl, hinner, -⟩
    rw [List.append_assoc]
    exact pattern_starts hinner _
termination_by sizeOf p

/-- Only constructors start with a name in capital letters, alone or before what is left of them. -/
theorem not_nextIs_upper {p : Pattern} {own : List Token} (h : (Node.pattern p).SpelledBy own)
    (happlied : p.isApplied) (hctor : ∀ r name args, p ≠ .ctor r name args) (path : List String)
    (name : String) (ts : List Token) : nextIs (.upper path name) (own ++ ts) = false := by
  have hfirst : ∀ {k items us}, SpelledBy (token k :: items) us → k ≠ .upper path name →
      nextIs (.upper path name) (us ++ ts) = false := by
    intro k items us hus hk
    rcases spelled_token.mp hus with ⟨t, rest, rfl, ht, -⟩
    simp [nextIs, nextKind, ht, hk]
  have hitems : SpelledBy p.items own := h.2
  cases p with
  | literal _ value =>
    rcases literal_first hitems with ⟨t, more, rfl, ht | ⟨l, ht⟩⟩
    · simp [nextIs, nextKind, ht]
    · cases l <;> simp [nextIs, nextKind, ht, Literal.kind]
  | ctor r name args => exact absurd rfl (hctor r name args)
  | cons | named => cases happlied
  | _ => exact hfirst hitems (by simp)

theorem not_nextIs_of_startsPatternAtom {k : Kind} {ts : List Token}
    (h : startsPatternAtom ts = true) (hk : startsPatternAtom [⟨k, default, default⟩] = false) :
    nextIs k ts = false := by
  rw [Bool.eq_false_iff]
  intro hnext
  rcases exists_of_nextIs hnext with ⟨t, rest, rfl, rfl⟩
  exact absurd (hk.symm.trans h) Bool.false_ne_true

/-! ## Patterns that stand as arguments -/

/-- What ends a pattern without further names. -/
def EndsCons (rest : List Token) : Prop :=
  startsPatternAtom rest = false ∧ nextIs (.operator "::") rest = false

/-- What ends a pattern. -/
def EndsPattern (rest : List Token) : Prop :=
  EndsCons rest ∧ nextIs (.keyword .asWord) rest = false

/-- The pattern without the names given to it is read first, then the names. -/
def ReadsBase (p : Pattern) (own : List Token) : Prop :=
  ∀ fuel, 8 * own.length + 2 ≤ fuel → ∀ rest, EndsCons rest →
    ∃ base left p' count, consPattern fuel (own ++ rest) = .ok (base, left) ∧
      count + rest.length ≤ left.length ∧
      (∀ n, aliases base (n + count) left = aliases p' n rest) ∧ p'.unplaced = p.unplaced

/-- The tokens are read back to an argument. -/
def ReadsAtom (p : Pattern) (own : List Token) : Prop :=
  ∀ fuel, 8 * own.length ≤ fuel →
    ReadsBack Pattern.unplaced (fun _ => True) (atomPattern fuel) own p

/-- The tokens are read back to a constructor with its arguments, or to an argument. -/
def ReadsApplied (p : Pattern) (own : List Token) : Prop :=
  ∀ fuel, 8 * own.length + 1 ≤ fuel →
    ReadsBack Pattern.unplaced (startsPatternAtom · = false) (applicationPattern fuel) own p

/-- The tokens are read back to a list with its tail, or to one of the former. -/
def ReadsUnnamed (p : Pattern) (own : List Token) : Prop :=
  ∀ fuel, 8 * own.length + 2 ≤ fuel →
    ReadsBack Pattern.unplaced EndsCons (consPattern fuel) own p

/-- The tokens are read back to the pattern by every reader that may meet it. -/
structure PatternReadsBack (p : Pattern) (own : List Token) : Prop where
  atom : p.isAtom → ReadsAtom p own
  applied : p.isApplied → ReadsApplied p own
  unnamed : p.isUnnamed → ReadsUnnamed p own
  base : ReadsBase p own
  pattern : ∀ fuel, 8 * own.length + 3 ≤ fuel →
    ReadsBack Pattern.unplaced EndsPattern (pattern fuel) own p

theorem atomPattern_literal {t : Token} {l : Literal} (ht : t.kind = l.kind)
    (hl : l.isNegative = false) (fuel : Nat) (rest : List Token) :
    atomPattern (fuel + 1) (t :: rest) = .ok (.literal t.range l, rest) := by
  rcases t with ⟨kind, range, startsRow⟩
  obtain rfl : kind = l.kind := ht
  cases l with
  | int n | hex n =>
    have hn : ((n.toNat : Nat) : Int) = n := by
      simp only [Literal.isNegative, decide_eq_false_iff_not] at hl
      omega
    simp only [Literal.kind, atomPattern, hn]
  | float x | string x | char x => rfl

/-- A minus sign before a number is read as the negated number. -/
theorem atomPattern_minus {t u : Token} {l : Literal} (ht : t.kind = .minus)
    (hu : u.kind = l.kind) (hl : l.isNegative = false)
    (hnumber : (∃ n, l = .int n) ∨ ∃ x, l = .float x) (fuel : Nat) (rest : List Token) :
    atomPattern (fuel + 1) (t :: u :: rest) =
      .ok (.literal (t.range.merge u.range) l.negate, rest) := by
  rcases t with ⟨kind, range, startsRow⟩
  obtain rfl : kind = .minus := ht
  rcases u with ⟨kind, range', startsRow'⟩
  obtain rfl : kind = l.kind := hu
  rcases hnumber with ⟨n, rfl⟩ | ⟨x, rfl⟩
  · have hn : ((n.toNat : Nat) : Int) = n := by
      simp only [Literal.isNegative, decide_eq_false_iff_not] at hl
      omega
    simp only [Literal.kind, atomPattern, negatedNumber, hn, Literal.negate]
  · rfl

/-- A literal is read back as a pattern, with its sign. -/
theorem literal_readsBack {r : Range} {l : Literal} {own : List Token}
    (h : (Node.pattern (.literal r l)).SpelledBy own) (fuel : Nat) :
    ReadsBack Pattern.unplaced (fun _ => True) (atomPattern (fuel + 1)) own (.literal r l) := by
  have hapt : Pattern.Apt (.literal r l) := h.1.1
  have hitems : SpelledBy l.items own := h.2
  intro rest _
  unfold Literal.items at hitems
  split at hitems
  · rename_i hnegative
    rcases spelled_token.mp hitems with ⟨t, _, rfl, ht, hrest⟩
    rcases spelled_token.mp hrest with ⟨u, _, rfl, hu, hrest⟩
    obtain rfl := spelled_nil.mp hrest
    -- the sign is taken off, and put back by the reader
    have hback : l.negate.isNegative = false ∧ l.negate.negate = l ∧
        ((∃ n, l.negate = .int n) ∨ ∃ x, l.negate = .float x) := by
      cases l with
      | int n => simp_all [Literal.isNegative, Literal.negate]; omega
      | hex n =>
        have hn : 0 ≤ n := hapt
        simp only [Literal.isNegative, decide_eq_true_eq] at hnegative
        omega
      | float x =>
        rcases x with ⟨negative, magnitude⟩
        obtain rfl : negative = true := hnegative
        simp [Literal.isNegative, Literal.negate, Double.negate]
      | string s | char c => cases hnegative
    have hread := atomPattern_minus ht hu hback.1 hback.2.2 fuel rest
    rw [hback.2.1] at hread
    exact ⟨_, hread, rfl⟩
  · rename_i hnegative
    rw [Bool.not_eq_true] at hnegative
    split at hitems
    · rename_i hzero
      subst hzero
      cases hitems with
      | absent hone =>
        rcases spelled_token.mp hone with ⟨t, _, rfl, ht, hrest⟩
        obtain rfl := spelled_nil.mp hrest
        exact ⟨_, atomPattern_literal ht hnegative fuel rest, rfl⟩
      | present ht hone =>
        rcases spelled_token.mp hone with ⟨u, _, rfl, hu, hrest⟩
        obtain rfl := spelled_nil.mp hrest
        exact ⟨_, atomPattern_minus ht hu hnegative (.inl ⟨0, rfl⟩) fuel rest, rfl⟩
    · rcases spelled_token.mp hitems with ⟨t, _, rfl, ht, hrest⟩
      obtain rfl := spelled_nil.mp hrest
      exact ⟨_, atomPattern_literal ht hnegative fuel rest, rfl⟩

/-! ## Patterns in brackets -/

theorem atomPattern_paren {fuel : Nat} {start : Range} {startsRow : Bool} {ts : List Token}
    (h : nextIs .rightParen ts = false) :
    atomPattern (fuel + 1) (⟨.leftParen, start, startsRow⟩ :: ts) = (do
      let (items, ts) ← commaSeparated (pattern fuel) ts.length.succ ts
      let (stop, ts) ← expectMark .rightParen ts
      match items with
      | [inner] => return (.paren (start.merge stop) inner, ts)
      | _ => return (.tuple (start.merge stop) items, ts)) := by
  rw [atomPattern]
  all_goals first
    | rfl
    | rintro stop startsRow rest rfl
      simp [nextIs, nextKind] at h

/-- Behind a bracket that is not closed at once, patterns are read with commas between them. -/
theorem atomPattern_bracket {fuel : Nat} {start : Range} {startsRow : Bool} {ts : List Token}
    (h : nextIs .rightBracket ts = false) :
    atomPattern (fuel + 1) (⟨.leftBracket, start, startsRow⟩ :: ts) = (do
      let (items, ts) ← commaSeparated (pattern fuel) ts.length.succ ts
      let (stop, ts) ← expectMark .rightBracket ts
      return (.list (start.merge stop) items, ts)) := by
  rw [atomPattern]
  rintro stop startsRow rest rfl
  simp [nextIs, nextKind] at h

theorem atomPattern_brace {fuel : Nat} {start : Range} {startsRow : Bool} {ts : List Token}
    (h : nextIs .rightBrace ts = false) :
    atomPattern (fuel + 1) (⟨.leftBrace, start, startsRow⟩ :: ts) = (do
      let (fields, ts) ← commaSeparated (lowerName .fieldName) ts.length.succ ts
      let (stop, ts) ← expectMark .rightBrace ts
      return (.record (start.merge stop) fields, ts)) := by
  rw [atomPattern]
  rintro stop startsRow rest rfl
  simp [nextIs, nextKind] at h

/-- What stands in brackets is read back with the brackets. -/
theorem bracketed_readsBack {α β : Type} (fuel : Nat) (rest : List Token) {items : α → List Item}
    {un : α → β} {stop : List Token → Prop} {item : List Token → Reading (α × List Token)}
    {close : Kind} {xs : List α} {own : List Token}
    (hown : SpelledBy (commas (xs.map items) ++ [token close]) own) (hne : xs ≠ [])
    (hitem : ∀ x ∈ xs, ∀ tokens, SpelledBy (items x) tokens → tokens <:+: own →
      tokens.length < own.length → ReadsBack un stop item tokens x)
    (hstop : ∀ t ts, t :: ts <:+ own ++ rest → t.kind = .comma ∨ t.kind = close → stop (t :: ts))
    (hclose : close ≠ .comma) (hfuel : own.length ≤ fuel) :
    ∃ xs' t, commaSeparated item fuel (own ++ rest) = .ok (xs', t :: rest) ∧ t.kind = close ∧
      xs'.map un = xs.map un := by
  rcases spelled_append.mp hown with ⟨inner, last, rfl, hinner, hlast⟩
  rcases spelled_token.mp hlast with ⟨t, _, rfl, ht, hnil⟩
  obtain rfl := spelled_nil.mp hnil
  rw [List.length_append, List.length_singleton] at hfuel hitem
  have hall : inner ++ [t] ++ rest = inner ++ t :: rest := by simp
  rw [hall] at hstop ⊢
  -- the closing mark is no comma, so the list ends there
  have hend : nextIs .comma (t :: rest) = false := by
    simp [nextIs, nextKind, ht, hclose]
  rcases commaSeparated_readsBack fuel (t :: rest) hinner hne
    (fun x hx tokens htokens hin => hitem x hx tokens htokens
      (hin.trans (List.prefix_append inner [t]).isInfix) (Nat.lt_succ_of_le hin.length_le))
    (fun u us hus hu => hstop u us hus (.inl hu))
    (hstop t rest (List.suffix_append _ _) (.inr ht)) hend (by omega) with ⟨xs', hread, hxs⟩
  exact ⟨xs', t, hread, ht, hxs⟩

/-- What stands in brackets starts as its first item does. -/
theorem bracketed_starts {α : Type} (starts : List Token → Prop) {items : α → List Item}
    {close : Kind} {xs : List α} {own : List Token}
    (hown : SpelledBy (commas (xs.map items) ++ [token close]) own) (hne : xs ≠ [])
    (hstarts : ∀ x ∈ xs, ∀ tokens, SpelledBy (items x) tokens → ∀ ts, starts (tokens ++ ts))
    (rest : List Token) : starts (own ++ rest) := by
  rcases spelled_append.mp hown with ⟨inner, last, rfl, hinner, -⟩
  rcases exists_first_of_commas hinner hne with ⟨x, hx, tokens, more, rfl, htokens⟩
  rw [List.append_assoc, List.append_assoc]
  exact hstarts x hx tokens htokens _

/-! ## All readers -/

variable {p : Pattern} {own : List Token}

/-- The parts of the pattern are read back. -/
def PartsReadBack (p : Pattern) : Prop :=
  ∀ {q own}, part (.pattern q) ∈ p.items → (Node.pattern q).SpelledBy own → PatternReadsBack q own

/-- A comma or a closing bracket ends a pattern. -/
theorem endsPattern_cons {t : Token} {ts : List Token} {close : Kind}
    (ht : t.kind = .comma ∨ t.kind = close) (hclose : close = .rightParen ∨ close = .rightBracket) :
    EndsPattern (t :: ts) := by
  have hkind : t.kind = .comma ∨ t.kind = .rightParen ∨ t.kind = .rightBracket := by
    rcases ht with ht | ht
    · exact .inl ht
    · exact .inr (hclose.imp (ht.trans ·) (ht.trans ·))
  rcases hkind with hk | hk | hk <;>
    simp [EndsPattern, EndsCons, startsPatternAtom, nextIs, nextKind, hk]

/-- Patterns in parentheses or brackets are read back. -/
theorem patterns_readBack (fuel : Nat) (rest : List Token) {ps : List Pattern} {own : List Token}
    {close : Kind} (hclose : close = .rightParen ∨ close = .rightBracket)
    (hown : SpelledBy (commas (ps.map ([part <| .pattern ·])) ++ [token close]) own)
    (hne : ps ≠ [])
    (ih : ∀ q ∈ ps, ∀ tokens, (Node.pattern q).SpelledBy tokens → PatternReadsBack q tokens)
    (hfuel : 8 * own.length ≤ fuel) :
    nextIs close (own ++ rest) = false ∧
      ∃ ps' t, commaSeparated (pattern fuel) (own ++ rest).length.succ (own ++ rest) =
          .ok (ps', t :: rest) ∧ t.kind = close ∧
        ps'.map Pattern.unplaced = ps.map Pattern.unplaced := by
  have hitem : ∀ q ∈ ps, ∀ tokens, SpelledBy [part (.pattern q)] tokens → tokens <:+: own →
      tokens.length < own.length →
        ReadsBack Pattern.unplaced EndsPattern (pattern fuel) tokens q := by
    intro q hq tokens htokens _ hlt
    exact (ih q hq tokens (spelled_part_singleton.mp htokens)).pattern fuel (by omega)
  refine ⟨?_, bracketed_readsBack _ rest hown hne hitem
    (fun t ts _ ht => endsPattern_cons ht hclose) ?_ ?_⟩
  · refine not_nextIs_of_startsPatternAtom (bracketed_starts (startsPatternAtom ·) hown hne
      (fun q _ tokens hq ts => pattern_starts (spelled_part_singleton.mp hq) ts) rest) ?_
    rcases hclose with rfl | rfl <;> rfl
  · rcases hclose with rfl | rfl <;> simp
  · rw [List.length_append]
    omega

section

variable {r : Range}

theorem paren_pattern_readsBack {inner : Pattern}
    (h : (Node.pattern (.paren r inner)).SpelledBy own) (ih : PartsReadBack (.paren r inner)) :
    ReadsAtom (.paren r inner) own := by
  intro fuel hfuel rest _
  rcases spelled_token.mp h.2 with ⟨⟨kind, start, startsRow⟩, more, rfl, rfl, hmore⟩
  have hsingle : SpelledBy (commas ([inner].map ([part <| .pattern ·])) ++ [token .rightParen])
      more := by simpa using hmore
  rw [List.length_cons] at hfuel
  obtain ⟨fuel, rfl⟩ : ∃ n, fuel = n + 1 := ⟨fuel - 1, by omega⟩
  rcases patterns_readBack fuel rest (.inl rfl) hsingle (by simp)
    (fun q hq tokens htokens => ih (by simp_all [Pattern.items]) htokens) (by omega) with
    ⟨hnext, ps', t, hread, ht, hps⟩
  obtain ⟨inner', rfl, hinner⟩ : ∃ q, ps' = [q] ∧ q.unplaced = inner.unplaced := by
    simpa [List.map_eq_singleton_iff] using hps
  rw [List.cons_append, atomPattern_paren hnext]
  refine ⟨_, bind_ok_iff.mpr ⟨_, hread, bind_ok_iff.mpr ⟨_, expect_cons ht _ _, rfl⟩⟩, ?_⟩
  simp [Pattern.unplaced, hinner]

/-- A pattern of a tuple is read back. -/
theorem tuple_pattern_readsBack {items : List Pattern}
    (h : (Node.pattern (.tuple r items)).SpelledBy own) (ih : PartsReadBack (.tuple r items)) :
    ReadsAtom (.tuple r items) own := by
  intro fuel hfuel rest _
  rcases spelled_token.mp h.2 with ⟨⟨kind, start, startsRow⟩, more, rfl, rfl, hmore⟩
  have hapt : 2 ≤ items.length := h.1.1
  rw [List.length_cons] at hfuel
  obtain ⟨fuel, rfl⟩ : ∃ n, fuel = n + 1 := ⟨fuel - 1, by omega⟩
  rcases patterns_readBack fuel rest (.inl rfl) hmore (by rintro rfl; simp at hapt)
    (fun q hq tokens htokens => ih (by simp [Pattern.items, part_mem_commas_of_mem hq]) htokens)
    (by omega) with ⟨hnext, ps', t, hread, ht, hps⟩
  have hlen : ps'.length = items.length := by simpa using congrArg List.length hps
  rw [List.cons_append, atomPattern_paren hnext]
  -- as many items are read back as were written, so it is no parenthesis around one
  rcases ps' with _ | ⟨a, _ | ⟨b, ps'⟩⟩
  · rw [List.length_nil] at hlen
    omega
  · rw [List.length_singleton] at hlen
    omega
  · refine ⟨_, bind_ok_iff.mpr ⟨_, hread, bind_ok_iff.mpr ⟨_, expect_cons ht _ _, rfl⟩⟩, ?_⟩
    simp [Pattern.unplaced, Pattern.unplacedAll_eq, hps]

/-- A pattern of a list is read back. -/
theorem list_pattern_readsBack {items : List Pattern}
    (h : (Node.pattern (.list r items)).SpelledBy own) (ih : PartsReadBack (.list r items)) :
    ReadsAtom (.list r items) own := by
  intro fuel hfuel rest _
  rcases spelled_token.mp h.2 with ⟨⟨kind, start, startsRow⟩, more, rfl, rfl, hmore⟩
  rw [List.length_cons] at hfuel
  obtain ⟨fuel, rfl⟩ : ∃ n, fuel = n + 1 := ⟨fuel - 1, by omega⟩
  by_cases hne : items = []
  · subst hne
    rcases spelled_token.mp hmore with ⟨⟨kind, range', startsRow'⟩, _, rfl, rfl, hnil⟩
    obtain rfl := spelled_nil.mp hnil
    exact ⟨_, rfl, rfl⟩
  · rcases patterns_readBack fuel rest (.inr rfl) hmore hne
      (fun q hq tokens htokens => ih (by simp [Pattern.items, part_mem_commas_of_mem hq]) htokens)
      (by omega) with ⟨hnext, ps', t, hread, ht, hps⟩
    rw [List.cons_append, atomPattern_bracket hnext]
    refine ⟨_, bind_ok_iff.mpr ⟨_, hread, bind_ok_iff.mpr ⟨_, expect_cons ht _ _, rfl⟩⟩, ?_⟩
    simp [Pattern.unplaced, Pattern.unplacedAll_eq, hps]

/-- A pattern of a record is read back, field by field. -/
theorem record_pattern_readsBack {fields : List (Located String)}
    (h : (Node.pattern (.record r fields)).SpelledBy own) : ReadsAtom (.record r fields) own := by
  intro fuel hfuel rest _
  rcases spelled_token.mp h.2 with ⟨⟨kind, start, startsRow⟩, more, rfl, rfl, hmore⟩
  rw [List.length_cons] at hfuel
  obtain ⟨fuel, rfl⟩ : ∃ n, fuel = n + 1 := ⟨fuel - 1, by omega⟩
  by_cases hne : fields = []
  · subst hne
    rcases spelled_token.mp hmore with ⟨⟨kind, range', startsRow'⟩, _, rfl, rfl, hnil⟩
    obtain rfl := spelled_nil.mp hnil
    exact ⟨_, rfl, rfl⟩
  · -- the first field is a name, so the braces are not read as empty
    have hnext : nextIs .rightBrace (more ++ rest) = false := by
      refine bracketed_starts (nextIs .rightBrace · = false) hmore hne ?_ rest
      intro f _ tokens hf ts
      rcases spelledBy_name (spelled_part_singleton.mp hf) with ⟨t, rfl, ht⟩
      simp [nextIs, nextKind, ht]
    have hitem : ∀ f ∈ fields, ∀ tokens, SpelledBy [part (.name f)] tokens → tokens <:+: more →
        tokens.length < more.length →
          ReadsBack Located.value (fun _ => True) (lowerName .fieldName) tokens f :=
      fun f _ tokens htokens _ _ => lowerName_readsBack (spelled_part_singleton.mp htokens) _
    rcases bracketed_readsBack (more ++ rest).length.succ rest hmore hne hitem (by simp) (by simp)
      (by simp; omega) with ⟨fs, t, hread, ht, hfs⟩
    rw [List.cons_append, atomPattern_brace hnext]
    refine ⟨_, bind_ok_iff.mpr ⟨_, hread, bind_ok_iff.mpr ⟨_, expect_cons ht _ _, rfl⟩⟩, ?_⟩
    have hunplaced : ∀ gs : List (Located String),
        gs.map Located.unplaced = (gs.map Located.value).map fun v => ⟨v, default⟩ := by
      intro gs
      rw [List.map_map]
      rfl
    simp [Pattern.unplaced, hunplaced, hfs]

end

/-- Every pattern that needs no parentheses is read back, when its parts are. -/
theorem atomPattern_readsBack (h : (Node.pattern p).SpelledBy own) (ih : PartsReadBack p)
    (hatom : p.isAtom) : ReadsAtom p own := by
  intro fuel hfuel rest _
  have hlength := List.length_pos_iff.mpr h.ne_nil
  obtain ⟨fuel, rfl⟩ : ∃ n, fuel = n + 1 := ⟨fuel - 1, by omega⟩
  have hitems : SpelledBy p.items own := h.2
  cases p with
  | literal r l => exact literal_readsBack h fuel rest trivial
  | wild | var =>
    rcases spelled_token.mp hitems with ⟨⟨kind, range, startsRow⟩, _, rfl, rfl, hnil⟩
    obtain rfl := spelled_nil.mp hnil
    exact ⟨_, rfl, rfl⟩
  | ctor _ name args =>
    -- a constructor with arguments is no atom
    obtain rfl : args = [] := List.isEmpty_iff.mp hatom
    rcases spelled_token.mp hitems with ⟨⟨kind, range, startsRow⟩, _, rfl, rfl, hnil⟩
    obtain rfl := spelled_nil.mp hnil
    exact ⟨_, rfl, rfl⟩
  | unit =>
    rcases spelled_token.mp hitems with ⟨⟨kind, range, startsRow⟩, _, rfl, rfl, hmore⟩
    rcases spelled_token.mp hmore with ⟨⟨kind, range', startsRow'⟩, _, rfl, rfl, hnil⟩
    obtain rfl := spelled_nil.mp hnil
    exact ⟨_, rfl, rfl⟩
  | paren => exact paren_pattern_readsBack h ih _ hfuel rest trivial
  | tuple => exact tuple_pattern_readsBack h ih _ hfuel rest trivial
  | list => exact list_pattern_readsBack h ih _ hfuel rest trivial
  | record => exact record_pattern_readsBack h _ hfuel rest trivial
  | cons | named => cases hatom

/-- A constructor with its arguments is read back, when its parts are. -/
theorem applicationPattern_readsBack (h : (Node.pattern p).SpelledBy own) (ih : PartsReadBack p)
    (hatom : p.isAtom → ReadsAtom p own) (happlied : p.isApplied) : ReadsApplied p own := by
  intro fuel hfuel rest hrest
  obtain ⟨fuel, rfl⟩ : ∃ n, fuel = n + 1 := ⟨fuel - 1, by omega⟩
  have hitems : SpelledBy p.items own := h.2
  by_cases hctor : ∃ r name args, p = .ctor r name args
  · rcases hctor with ⟨r, name, args, rfl⟩
    rcases spelled_token.mp hitems with ⟨⟨kind, range, startsRow⟩, more, rfl, rfl, hmore⟩
    have hapt : ∀ a ∈ args, a.isAtom := h.1.1
    rw [List.length_cons] at hfuel
    have hitem : ∀ a ∈ args, ∀ tokens, (Node.pattern a).SpelledBy tokens → tokens <:+: more →
        ReadsBack Pattern.unplaced (fun _ => True) (atomPattern fuel) tokens a := by
      intro a ha tokens htokens hin
      have hlength := hin.length_le
      exact (ih (by simp [Pattern.items, ha]) htokens).atom (hapt a ha) fuel (by omega)
    rcases repeatedly_readsBack (more ++ rest).length rest hmore hitem
      (fun a _ tokens ts htokens _ => ⟨pattern_starts htokens ts, trivial⟩) trivial hrest
      (by simp) with ⟨args', hread, hargs⟩
    refine ⟨_, bind_ok_iff.mpr ⟨_, hread, rfl⟩, ?_⟩
    simp [Pattern.unplaced, Pattern.unplacedAll_eq, hargs]
  · -- anything else is read as an argument is
    have hisAtom : p.isAtom := by
      cases p with
      | ctor r name args => exact absurd ⟨r, name, args, rfl⟩ hctor
      | cons | named => cases happlied
      | _ => rfl
    rcases hatom hisAtom fuel (by omega) rest trivial with ⟨p', hread, hp⟩
    refine ⟨p', ?_, hp⟩
    rw [← hread, applicationPattern]
    intro path name range startsRow more hmore
    have hupper := not_nextIs_upper h happlied (fun r name args hp => hctor ⟨r, name, args, hp⟩)
      path name rest
    simp [hmore, nextIs, nextKind] at hupper

/-- A pattern with `::` is read back, when its parts are. -/
theorem consPattern_readsBack (h : (Node.pattern p).SpelledBy own) (ih : PartsReadBack p)
    (happlied : p.isApplied → ReadsApplied p own) (hunnamed : p.isUnnamed) :
    ReadsUnnamed p own := by
  intro fuel hfuel rest hrest
  obtain ⟨fuel, rfl⟩ : ∃ n, fuel = n + 1 := ⟨fuel - 1, by omega⟩
  have hitems : SpelledBy p.items own := h.2
  by_cases hcons : ∃ r head tail, p = .cons r head tail
  · rcases hcons with ⟨r, head, tail, rfl⟩
    rcases spelled_part.mp hitems with ⟨front, more, rfl, hhead, hmore⟩
    rcases spelled_token.mp hmore with ⟨t, back, rfl, ht, hback⟩
    have htail := spelled_part_singleton.mp hback
    have hapt : head.isApplied ∧ tail.isUnnamed := h.1.1
    simp only [List.length_append, List.length_cons] at hfuel
    -- the head ends before the operator, and the tail where the whole ends
    rcases (ih (by simp [Pattern.items]) hhead).applied hapt.1 fuel (by omega)
      (t :: (back ++ rest)) (by simp [startsPatternAtom, nextKind, ht]) with ⟨head', hread, hh⟩
    rcases (ih (by simp [Pattern.items]) htail).unnamed hapt.2 fuel (by omega) rest
      hrest with ⟨tail', hread', ht'⟩
    have hnext : nextIs (.operator "::") (t :: (back ++ rest)) = true := by simp [ht]
    refine ⟨.cons (head'.range.merge tail'.range) head' tail', ?_, by simp [Pattern.unplaced, *]⟩
    rw [List.append_assoc, List.cons_append, consPattern]
    refine bind_ok_iff.mpr ⟨_, hread, ?_⟩
    dsimp only
    rw [if_pos hnext]
    exact bind_ok_iff.mpr ⟨_, hread', rfl⟩
  · have hisApplied : p.isApplied := by
      cases p with
      | cons r head tail => exact absurd ⟨r, head, tail, rfl⟩ hcons
      | named => cases hunnamed
      | _ => rfl
    rcases happlied hisApplied fuel (by omega) rest hrest.1 with ⟨p', hread, hp⟩
    refine ⟨p', ?_, hp⟩
    rw [consPattern]
    refine bind_ok_iff.mpr ⟨_, hread, ?_⟩
    dsimp only
    rw [if_neg (by simp [hrest.2])]
    rfl

theorem pattern_of_readsBase (h : ReadsBase p own) {fuel : Nat}
    (hfuel : 8 * own.length + 3 ≤ fuel) :
    ReadsBack Pattern.unplaced EndsPattern (pattern fuel) own p := by
  obtain ⟨fuel, rfl⟩ : ∃ n, fuel = n + 1 := ⟨fuel - 1, by omega⟩
  intro rest hrest
  rcases h fuel (by omega) rest hrest.1 with ⟨base, left, p', count, hread, hle, hnames, hp⟩
  refine ⟨p', ?_, hp⟩
  rw [pattern]
  refine bind_ok_iff.mpr ⟨_, hread, ?_⟩
  dsimp only
  obtain ⟨n, hn⟩ : ∃ n, left.length + 1 = (n + 1) + count := ⟨left.length - count, by omega⟩
  rw [hn, hnames, aliases]
  rintro range startsRow more rfl
  simp [EndsPattern, nextIs, nextKind] at hrest

theorem readsBase (h : (Node.pattern p).SpelledBy own) (ih : PartsReadBack p)
    (hunnamed : p.isUnnamed → ReadsUnnamed p own) : ReadsBase p own := by
  intro fuel hfuel rest hrest
  have hitems : SpelledBy p.items own := h.2
  by_cases hnamed : ∃ r inner name, p = .named r inner name
  · rcases hnamed with ⟨r, inner, name, rfl⟩
    rcases spelled_part.mp hitems with ⟨front, more, rfl, hinner, hmore⟩
    rcases spelled_token.mp hmore with ⟨⟨kind, range, startsRow⟩, back, rfl, rfl, hback⟩
    rcases spelledBy_name (spelled_part_singleton.mp hback) with ⟨t, rfl, ht⟩
    simp only [List.length_append, List.length_cons] at hfuel
    rcases (ih (by simp [Pattern.items]) hinner).base fuel (by omega)
      (⟨.keyword .asWord, range, startsRow⟩ :: t :: rest)
      (by simp [EndsCons, startsPatternAtom, nextIs, nextKind]) with
      ⟨base, left, inner', count, hread, hle, hnames, hi⟩
    simp only [List.length_cons] at hle
    -- the reader of names takes up one more name than for the inner pattern
    refine ⟨base, left, .named (inner'.range.merge t.range) inner' ⟨name.value, t.range⟩,
      count + 1, by simpa using hread, by omega, ?_,
      by simp [Pattern.unplaced, hi, Located.unplaced]⟩
    intro n
    rw [show n + (count + 1) = (n + 1) + count by omega, hnames, aliases,
      lowerName_cons ht]
    rfl
  · have hisUnnamed : p.isUnnamed := by
      cases p with
      | named r inner name => exact absurd ⟨r, inner, name, rfl⟩ hnamed
      | _ => rfl
    rcases hunnamed hisUnnamed fuel hfuel rest hrest with ⟨p', hread, hp⟩
    exact ⟨p', rest, p', 0, hread, by omega, fun n => rfl, hp⟩

/-- Tokens that spell a pattern are read back to it. -/
theorem pattern_readsBack {p : Pattern} {own : List Token}
    (h : (Node.pattern p).SpelledBy own) : PatternReadsBack p own := by
  -- the induction is on the tree: its parts are smaller, whatever reader meets them
  have ih : PartsReadBack p := by
    intro q tokens hq htokens
    have hlt : sizeOf q < sizeOf p := by
      have := Node.sizeOf_lt_of_part (n := .pattern p) hq
      simpa using this
    exact pattern_readsBack htokens
  have hatom := atomPattern_readsBack h ih
  have happlied := applicationPattern_readsBack h ih hatom
  have hunnamed := consPattern_readsBack h ih happlied
  have hbase := readsBase h ih hunnamed
  exact ⟨hatom, happlied, hunnamed, hbase, fun _ hf => pattern_of_readsBase hbase hf⟩
termination_by sizeOf p

end Terse.Grammar
