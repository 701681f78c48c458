import Terse.Proofs.Rule.Boolean
import Terse.Proofs.Rule.Function
import Terse.Proofs.Rule.Mirror

/-!
# Chains at twins

Chains that are twins have terms that face each other, since parentheses around an operand of a
composition stand on both sides or on none. Taking terms out of a chain changes the nodes that do
not end before the first of them, and do not start behind the last one.
-/

namespace Terse

variable {place place' : Location → Prop} {e e' : Expr}

/-! ## Terms -/

namespace Chain

theorem termsOf_of_not_operation {symbol : String} {x : Expr} (h : x.isOperation symbol = false) :
    termsOf symbol x = [x] := by
  cases x with
  | binary r s left right =>
    have hne : ¬ (s == symbol) = true := by simpa [Expr.isOperation] using h
    rw [termsOf, if_neg hne]
  | _ => rfl

/-- The terms of twins face each other, if both are operations of the chain or neither is one. -/
theorem facing_termsOf {symbol : String} (hsymbol : symbols.contains symbol = true) {x x' : Expr}
    (h : Expr.Facing e e' x x') (hop : x.isOperation symbol = x'.isOperation symbol) :
    List.Forall₂ (Expr.Facing e e') (termsOf symbol x) (termsOf symbol x') := by
  induction x using Expr.induction_on_children generalizing x' with
  | step x ih =>
    cases hx : x.isOperation symbol with
    | false =>
      rw [termsOf_of_not_operation hx, termsOf_of_not_operation (hop ▸ hx)]
      exact .cons h .nil
    | true =>
      rw [hx] at hop
      cases x with
      | binary r s left right =>
        cases x' with
        | binary r' s' left' right' =>
          obtain rfl : s = symbol := by simpa [Expr.isOperation] using hx
          obtain rfl : s' = s := by simpa [Expr.isOperation] using hop.symm
          -- the operands are grouped alike
          have hgrouping := (h.twin.parts rfl rfl).1
          rw [Expr.grouping, Expr.grouping, if_pos hsymbol, if_pos hsymbol] at hgrouping
          simp only [List.cons.injEq, and_true] at hgrouping
          have hparts := h.children rfl rfl
          rcases List.forall₂_cons.mp hparts with ⟨hleft, hparts⟩
          have hright := (List.forall₂_cons.mp hparts).1
          rw [termsOf, termsOf, if_pos (beq_self_eq_true s'), if_pos (beq_self_eq_true s')]
          exact List.rel_append (ih left List.mem_cons_self hleft hgrouping.1)
            (ih right (by simp [Expr.children]) hright hgrouping.2)
        | _ => cases hop
      | _ => cases hx

end Chain

/-- Twins that are both chains. -/
structure Chain.Twins (e e' : Expr) (c c' : Chain) : Prop where
  chain : ofExpr? e = some c
  chain' : ofExpr? e' = some c'
  symbol : c.symbol = c'.symbol
  terms : List.Forall₂ (Expr.Facing e e') c.terms c'.terms

/-- Twins are both chains, and these are twins, or neither of them is a chain. -/
theorem Expr.Twins.chain? (h : e.Twins place place' e') :
    Option.Rel (Chain.Twins e e') (Chain.ofExpr? e) (Chain.ofExpr? e') := by
  have hform := h.twin.form_eq h.bare h.bare'
  cases e with
  | binary r symbol left right =>
    rcases h.twin.facing.of_binary h.bare' with ⟨r', left', right', rfl, -, -⟩
    by_cases hsymbol : Chain.symbols.contains symbol = true
    · have hterms := Chain.facing_termsOf hsymbol h.twin.facing (by simp [Expr.isOperation])
      have hchain : ∀ (r : Range) (left right : Expr), Chain.ofExpr? (.binary r symbol left right) =
          some ⟨symbol, Chain.termsOf symbol (.binary r symbol left right), r⟩ :=
        fun _ _ _ => if_pos hsymbol
      rw [hchain, hchain]
      exact .some ⟨hchain _ _ _, hchain _ _ _, rfl, hterms⟩
    · have hchain : ∀ (r : Range) (left right : Expr),
          Chain.ofExpr? (.binary r symbol left right) = none := fun _ _ _ => if_neg hsymbol
      rw [hchain, hchain]
      exact .none
  | _ =>
    cases e' with
    | binary => cases hform
    | _ => exact .none

/-! ## Terms that are taken out -/

namespace Chain

variable {c : Chain}

theorem mem_nodes_of_mem_terms (hc : ofExpr? e = some c) {t : Expr} (ht : t ∈ c.terms) :
    t ∈ e.nodes := by
  unfold ofExpr? at hc
  split at hc
  · split at hc
    · cases hc
      exact mem_nodes_of_mem_termsOf ht
    · cases hc
  · cases hc

theorem spans_of_mem (he : e.Nested place) (hc : ofExpr? e = some c) {n : Expr}
    (hn : n ∈ e.nodes) : Spans c.terms n.range := by
  unfold ofExpr? at hc
  split at hc
  · split at hc
    · cases hc
      exact spans_of_mem_nodes he hn
    · cases hc
  · cases hc

/-- The first and the last term that a node stands in. -/
structure From (terms : List Expr) (r : Range) (i j : Nat) (t u : Expr) : Prop where
  first : terms[i]? = some t
  starts : t.range.start ≤ r.start ∧ r.start < t.range.stop
  last : terms[j]? = some u
  stops : u.range.start < r.stop ∧ r.stop ≤ u.range.stop

theorem exists_from (he : e.Nested place) (hc : ofExpr? e = some c) {n : Expr}
    (hn : n ∈ e.nodes) : ∃ i j t u, From c.terms n.range i j t u := by
  rcases spans_of_mem he hc hn with ⟨⟨t, ht, hstarts⟩, u, hu, hstops⟩
  rcases List.getElem?_of_mem ht with ⟨i, hi⟩
  rcases List.getElem?_of_mem hu with ⟨j, hj⟩
  exact ⟨i, j, t, u, hi, hstarts, hj, hstops⟩

section

variable (hfills : c.Fills place) {r : Range} {i j k : Nat} {t u a : Expr}
  (h : From c.terms r i j t u) (ha : c.terms[k]? = some a)
include hfills h ha

/-- A range starts before the end of a term exactly when it starts in that term or before it. -/
theorem From.start_lt_stop_iff : r.start < a.range.stop ↔ i ≤ k := by
  have hlt := (hfills.term_lies (List.mem_of_getElem? ha)).1.proper.lt
  have hstarts := h.starts
  rcases lt_trichotomy i k with hik | rfl | hki
  · have hle := hfills.stop_le_start h.first ha hik
    exact iff_of_true (by order) hik.le
  · have heq := h.first
    rw [ha, Option.some.injEq] at heq
    exact iff_of_true (heq ▸ hstarts.2) le_rfl
  · have hle := hfills.stop_le_start ha h.first hki
    exact iff_of_false (by order) (by omega)

/-- A range starts before a term exactly when it starts in a term before it. -/
theorem From.start_lt_start_iff : r.start < a.range.start ↔ i < k := by
  have hlt := (hfills.term_lies (List.mem_of_getElem? ha)).1.proper.lt
  have hstarts := h.starts
  rcases lt_trichotomy i k with hik | rfl | hki
  · have hle := hfills.stop_le_start h.first ha hik
    exact iff_of_true (by order) hik
  · have heq := h.first
    rw [ha, Option.some.injEq] at heq
    exact iff_of_false (not_lt.mpr (heq ▸ hstarts.1)) (lt_irrefl _)
  · have hle := hfills.stop_le_start ha h.first hki
    exact iff_of_false (by order) (by omega)

/-- A range ends behind the start of a term exactly when it ends in that term or behind it. -/
theorem From.start_lt_end_iff : a.range.start < r.stop ↔ k ≤ j := by
  have hlt := (hfills.term_lies (List.mem_of_getElem? ha)).1.proper.lt
  have hstops := h.stops
  rcases lt_trichotomy j k with hjk | rfl | hkj
  · have hle := hfills.stop_le_start h.last ha hjk
    exact iff_of_false (by order) (by omega)
  · have heq := h.last
    rw [ha, Option.some.injEq] at heq
    exact iff_of_true (heq ▸ hstops.1) le_rfl
  · have hle := hfills.stop_le_start ha h.last hkj
    exact iff_of_true (by order) hkj.le

/-- A range ends behind a term exactly when it ends in a term behind it. -/
theorem From.stop_lt_end_iff : a.range.stop < r.stop ↔ k < j := by
  have hlt := (hfills.term_lies (List.mem_of_getElem? ha)).1.proper.lt
  have hstops := h.stops
  rcases lt_trichotomy j k with hjk | rfl | hkj
  · have hle := hfills.stop_le_start h.last ha hjk
    exact iff_of_false (by order) (by omega)
  · have heq := h.last
    rw [ha, Option.some.injEq] at heq
    exact iff_of_false (not_lt.mpr (heq ▸ hstops.2)) (lt_irrefl _)
  · have hle := hfills.stop_le_start ha h.last hkj
    exact iff_of_true (by order) hkj

end

/-- Taking terms out changes the nodes that do not end before the first of them, and do not start
behind the last one. -/
theorem removeTerms_hits (he : e.Nested place) (hc : ofExpr? e = some c) {first last : Nat}
    {a b : Expr} (ha : c.terms[first]? = some a) (hb : c.terms[last]? = some b) (text : String)
    {n : Expr} (hn : n ∈ e.nodes) :
    Hit (c.removeTerms first last text) n.range ↔
      a.range.start < n.range.stop ∧ n.range.start < b.range.stop := by
  rcases ofExpr?_fills he hc with ⟨hfills, hrange⟩
  obtain ⟨i, j, t, u, hfrom⟩ := exists_from he hc hn
  rw [hfrom.start_lt_end_iff hfills ha, hfrom.start_lt_stop_iff hfills hb]
  have hi := (List.getElem?_eq_some_iff.mp hfrom.first).1
  have hj := (List.getElem?_eq_some_iff.mp hfrom.last).1
  unfold removeTerms
  split
  · -- the whole chain goes
    rename_i hall
    rcases he.nodes hn with ⟨hnested, hstart, hstop⟩
    have hlt := hnested.proper.lt
    rw [hit_cons, or_iff_left not_hit_nil]
    change c.range.start < n.range.stop ∧ n.range.start < c.range.stop ↔ _
    rw [hrange]
    exact iff_of_true ⟨by order, by order⟩ ⟨by omega, by omega⟩
  · rename_i hnotAll
    have hfirst := (List.getElem?_eq_some_iff.mp ha).1
    have hlast := (List.getElem?_eq_some_iff.mp hb).1
    cases hnext : c.terms[last + 1]? with
    | some next =>
      rw [ha]
      dsimp only
      rw [hit_cons, or_iff_left not_hit_nil]
      change a.range.start < n.range.stop ∧ n.range.start < next.range.start ↔ _
      rw [hfrom.start_lt_end_iff hfills ha, hfrom.start_lt_start_iff hfills hnext]
      omega
    | none =>
      rw [List.getElem?_eq_none_iff] at hnext
      obtain ⟨before, hbefore⟩ : ∃ before, c.terms[first - 1]? = some before :=
        ⟨_, List.getElem?_eq_getElem (by omega)⟩
      rw [hb, hbefore, ha]
      dsimp only
      rw [hit_cons, or_iff_left not_hit_nil]
      change before.range.stop < n.range.stop ∧ n.range.start < b.range.stop ↔ _
      rw [hfrom.stop_lt_end_iff hfills hbefore, hfrom.start_lt_stop_iff hfills hb]
      omega

end Chain

/-- Parentheses around a node leave out no place where another node could start or end. -/
theorem Expr.Nested.apart_stripParens_iff (he : e.Nested place) {n a : Expr}
    (hn : n ∈ e.bareNodes) (ha : a ∈ e.nodes) :
    (n.range.stop ≤ a.stripParens.range.start ↔ n.range.stop ≤ a.range.start) ∧
      (a.stripParens.range.stop ≤ n.range.start ↔ a.range.stop ≤ n.range.start) := by
  rcases List.mem_filter.mp hn with ⟨hmem, hbare⟩
  rcases he.nodes ha with ⟨hnested, -, -⟩
  rcases Expr.Lies.stripParens ⟨hnested, le_rfl, le_rfl⟩ with ⟨hstripped, hstart, hstop⟩
  have hlt := (he.nodes hmem).1.proper.lt
  have hltStripped := hstripped.proper.lt
  rcases he.mem_or_apart hmem ha with hin | hin | hle | hle
  · -- the node stands between the parentheses
    have hbetween : n ∈ a.stripParens.bareNodes := by
      rw [bareNodes_stripParens]
      exact List.mem_filter.mpr ⟨hin, hbare⟩
    have hlies := hstripped.nodes (mem_nodes_of_mem_bareNodes hbetween)
    have hafter := hlies.2.1
    have hbefore := hlies.2.2
    exact ⟨iff_of_false (by order) (by order), iff_of_false (by order) (by order)⟩
  · have hlies := (he.nodes hmem).1.nodes hin
    have hafter := hlies.2.1
    have hbefore := hlies.2.2
    exact ⟨iff_of_false (by order) (by order), iff_of_false (by order) (by order)⟩
  · exact ⟨iff_of_true (by order) hle, iff_of_false (by order) (by order)⟩
  · exact ⟨iff_of_false (by order) (by order), iff_of_true (by order) hle⟩

namespace Chain.Twins

variable {c c' : Chain} (h : Chain.Twins e e' c c') (htwins : e.Twins place place' e')
include h htwins

theorem range : c.range = e.range := (ofExpr?_fills htwins.nested h.chain).2

theorem range' : c'.range = e'.range := (ofExpr?_fills htwins.nested' h.chain').2

/-- Findings that take out terms with the same indices mirror each other. -/
theorem removeTerms_mirrors {P : Prop} {f f' : Finding} (hverdict : f.verdict = f'.verdict)
    {first last : Nat} (hfirst : first < c.terms.length) (hlast : last < c.terms.length)
    {text text' : String} (hf : f.edits = c.removeTerms first last text)
    (hf' : f'.edits = c'.removeTerms first last text') : f.Mirrors P e e' f' := by
  refine ⟨hverdict, fun _ n n' hn => ?_⟩
  have hzip := Expr.mem_zip_of_mem_pairs htwins.bare htwins.bare' hn
  rcases List.of_mem_zip hzip with ⟨hmem, hmem'⟩
  have hfacing := rel_getElem? h.terms first
  have hfacing' := rel_getElem? h.terms last
  generalize ha : c.terms[first]? = a, ha' : c'.terms[first]? = a' at hfacing
  generalize hb : c.terms[last]? = b, hb' : c'.terms[last]? = b' at hfacing'
  cases hfacing with
  | none => exact absurd hfirst (not_lt.mpr (List.getElem?_eq_none_iff.mp ha))
  | @some a a' hfacing =>
    cases hfacing' with
    | none => exact absurd hlast (not_lt.mpr (List.getElem?_eq_none_iff.mp hb))
    | @some b b' hfacing' =>
      -- the ends of the terms that go stand alike on both sides
      have hstart : n.range.stop ≤ a.range.start ↔ n'.range.stop ≤ a'.range.start := by
        rw [← (htwins.nested.apart_stripParens_iff hmem
            (mem_nodes_of_mem_terms h.chain (List.mem_of_getElem? ha))).1,
          ← (htwins.nested'.apart_stripParens_iff hmem'
            (mem_nodes_of_mem_terms h.chain' (List.mem_of_getElem? ha'))).1]
        exact hfacing.before_iff htwins.nested htwins.nested' htwins.twin hzip
      have hstop : b.range.stop ≤ n.range.start ↔ b'.range.stop ≤ n'.range.start := by
        rw [← (htwins.nested.apart_stripParens_iff hmem
            (mem_nodes_of_mem_terms h.chain (List.mem_of_getElem? hb))).2,
          ← (htwins.nested'.apart_stripParens_iff hmem'
            (mem_nodes_of_mem_terms h.chain' (List.mem_of_getElem? hb'))).2]
        exact hfacing'.behind_iff htwins.nested htwins.nested' hzip
      rw [hf, hf', removeTerms_hits htwins.nested h.chain ha hb text
          (Expr.mem_nodes_of_mem_bareNodes hmem),
        removeTerms_hits htwins.nested' h.chain' ha' hb' text'
          (Expr.mem_nodes_of_mem_bareNodes hmem'), ← not_le, ← not_le, ← not_le, ← not_le,
        hstart, hstop]

end Chain.Twins

/-! ## Rules about chains -/

namespace Rule

section

variable {α β : Type} {R : α → β → Prop} {as : List α} {bs : List β} {p : α → Bool}
  {q : β → Bool} (h : List.Forall₂ R as bs) (hpq : ∀ a b, R a b → q b = p a)
include h hpq

theorem findIdx?_rel : bs.findIdx? q = as.findIdx? p := by
  induction h with
  | nil => rfl
  | cons hab _ ih => rw [List.findIdx?_cons, List.findIdx?_cons, hpq _ _ hab, ih]

theorem firstPair_rel : firstPair q bs = firstPair p as := by
  induction h with
  | nil => rfl
  | @cons a b as bs hab hrest ih =>
    cases hrest with
    | nil => rfl
    | cons hnext => rw [firstPair, firstPair, hpq _ _ hab, hpq _ _ hnext, ih]

end

section

variable {ctx : Context} (source : SourceText) (isFree : Bool) {c c' : Chain} {P : Prop}
  (htwins : e.Twins place place' e') (h : Chain.Twins e e' c c')
include htwins h

theorem checkNotChain_mirrors : Mirrored P e e' (checkNotChain ctx c)
    (checkNotChain (ctx.moved source isFree) c') := by
  have hpair : firstPair (ctx.isReference · Core.basics "not") c'.terms =
      firstPair (ctx.isReference · Core.basics "not") c.terms :=
    firstPair_rel h.terms fun _ _ ht => ht.twin.isReference ctx _ _
  unfold checkNotChain
  rw [Context.isReference_moved, hpair]
  cases hi : firstPair (ctx.isReference · Core.basics "not") c.terms with
  | none => exact .none
  | some i =>
    have hlt := firstPair_lt hi
    have hfirst := rel_getElem? h.terms i
    have hsecond := rel_getElem? h.terms (i + 1)
    dsimp only
    generalize c.terms[i]? = a, c'.terms[i]? = a', c.terms[i + 1]? = b, c'.terms[i + 1]? = b'
      at hfirst hsecond ⊢
    cases hfirst with
    | none => exact .none
    | some =>
      cases hsecond with
      | none => exact .none
      | some => exact .some (h.removeTerms_mirrors htwins rfl (by omega) hlt rfl rfl)

omit htwins h in
theorem isAlwaysCall_twin {x x' : Expr} (h : x.Twin x') :
    isAlwaysCall ctx x' = isAlwaysCall ctx x := by
  have hstripped := h.stripParens.facing
  have hbare := x'.isBare_stripParens
  have hform := h.stripParens.form_eq x.isBare_stripParens hbare
  unfold isAlwaysCall
  cases hx : x.stripParens with
  | app r fn args =>
    rw [hx] at hstripped
    rcases hstripped.of_app hbare with ⟨r', fn', args', hx', hfn, hargs⟩
    rw [hx']
    cases hargs with
    | nil => rfl
    | cons _ hmore =>
      cases hmore with
      | nil => exact hfn.twin.isReference ctx _ _
      | cons => rfl
  | _ =>
    rw [hx] at hform
    dsimp only
    split
    · rename_i heq
      rw [heq] at hform
      cases hform
    · rfl

omit htwins in
theorem facing_last : Option.Rel (Expr.Facing e e') c.applicationOrder.getLast?
    c'.applicationOrder.getLast? := by
  have horder : List.Forall₂ (Expr.Facing e e') c.applicationOrder c'.applicationOrder := by
    unfold Chain.applicationOrder
    rw [h.symbol]
    split
    · exact h.terms
    · exact List.rel_reverse h.terms
  rw [List.getLast?_eq_getElem?, List.getLast?_eq_getElem?, horder.length_eq]
  exact rel_getElem? horder _

theorem checkAlwaysChain_mirrors : Mirrored P e e' (checkAlwaysChain ctx c)
    (checkAlwaysChain (ctx.moved source isFree) c') := by
  have hlast := facing_last h
  unfold checkAlwaysChain
  rw [h.range htwins, h.range' htwins]
  generalize c.applicationOrder.getLast? = a, c'.applicationOrder.getLast? = a' at hlast ⊢
  cases hlast with
  | none => exact .none
  | @some last last' hlast =>
    have hmoved : isAlwaysCall (ctx.moved source isFree) last' = isAlwaysCall ctx last' := rfl
    dsimp only
    rw [hmoved, isAlwaysCall_twin hlast.twin]
    exact .ite (.some (htwins.kept hlast)) .none

theorem checkBasicsChain_mirrors : Mirrored P e e' (checkBasicsChain ctx c)
    (checkBasicsChain (ctx.moved source isFree) c') := by
  have hidentity : ∀ t t', Expr.Facing e e' t t' → ctx.isIdentity t' = ctx.isIdentity t :=
    fun _ _ ht => ht.twin.isIdentity ctx
  have hterm := rel_find? h.terms hidentity
  unfold checkBasicsChain
  rw [Context.isIdentity_moved, findIdx?_rel h.terms hidentity]
  cases hi : c.terms.findIdx? ctx.isIdentity with
  | none => exact checkAlwaysChain_mirrors source isFree htwins h
  | some i =>
    have hlt := (List.findIdx?_eq_some_iff_findIdx_eq.mp hi).1
    generalize c.terms.find? ctx.isIdentity = a, c'.terms.find? ctx.isIdentity = a' at hterm ⊢
    cases hterm with
    | none => exact checkAlwaysChain_mirrors source isFree htwins h
    | some => exact .some (h.removeTerms_mirrors htwins rfl hlt hlt rfl rfl)

end

/-! ## Calls of `not` -/

section

variable {ctx : Context} (source : SourceText) (isFree : Bool) {P : Prop}

theorem checkNotCall_mirrors {c c' : Call} (h : Call.Twins place place' ctx e e' c c')
    {argument argument' : Expr} (hargument : Expr.Facing e e' argument argument') :
    Mirrored P e e' (checkNotCall ctx c argument)
      (checkNotCall (ctx.moved source isFree) c' argument') := by
  have hinner := Call.facing_argOfCall? ctx hargument Core.basics "not"
  unfold checkNotCall
  rw [Context.bool?_moved, hargument.twin.bool?, Context.argOfCall?_moved, h.range, h.range']
  cases ctx.bool? argument with
  | some value => exact .some h.twins.replaced
  | none =>
    dsimp only
    generalize ctx.argOfCall? argument Core.basics "not" = a,
      ctx.argOfCall? argument' Core.basics "not" = a' at hinner ⊢
    cases hinner with
    | none => exact .none
    | some hinner => exact .some (h.twins.kept hinner)

theorem checkNot_mirrors (h : e.Twins place place' e') :
    Mirrored P e e' (checkNot ctx e) (checkNot (ctx.moved source isFree) e') := by
  have hchain := h.chain?
  have hcall := h.ofExpr? ctx
  unfold checkNot
  rw [Context.ofExpr?_moved]
  generalize Chain.ofExpr? e = chain, Chain.ofExpr? e' = chain' at hchain ⊢
  cases hchain with
  | some hchain => exact checkNotChain_mirrors source isFree h hchain
  | none =>
    dsimp only
    generalize Call.ofExpr? ctx e = call, Call.ofExpr? ctx e' = call' at hcall ⊢
    cases hcall with
    | none => exact .none
    | @some c c' hcall =>
      have hargs := hcall.facing.args
      dsimp only
      rw [Call.isOf, Call.isOf, ← hcall.facing.function]
      generalize c.args = args, c'.args = args' at hargs ⊢
      cases (c.function == ⟨Core.basics, "not"⟩) with
      | false => exact .none
      | true =>
        cases hargs with
        | nil => exact .none
        | cons hargument hmore =>
          cases hmore with
          | nil => exact checkNotCall_mirrors source isFree hcall hargument
          | cons => exact .none

/-! ## Calls of `identity` and `always` -/

section

variable {c : Call} (he : e.Nested place) (hcall : Call.ofExpr? ctx e = some c)
include he hcall

/-- An argument stands before the head of a call, or behind the function. -/
theorem arg_beside_head {a : Expr} (ha : a ∈ c.args) :
    a.range.stop ≤ headStart c e ∨ c.fnRange.stop ≤ a.range.start := by
  have hfills := (Call.ofExpr?_fills he hcall).1
  have hside := (hfills.stands.args a ha).2
  unfold headStart
  split
  · rename_i hdirect
    have hbehind : a ∈ c.behind := by rwa [Call.behind, hdirect]
    exact .inr (hfills.behind_lies hbehind).2.1
  · exact hside.symm

/-- An argument ends before any later one, unless that one stands before the head. -/
theorem args_beside_head : c.args.Pairwise fun a b =>
    a.range.stop ≤ b.range.start ∨ b.range.stop ≤ headStart c e := by
  have hfn := (Call.ofExpr?_fills he hcall).1.stands.fn.lt
  apply (Call.within_args_pairwise he hcall).imp_of_mem
  intro a b _ hb hpair
  have hlt := ((Call.ofExpr?_fills he hcall).1.arg_lies hb).1.proper.lt
  rcases hpair with hle | hle
  · exact .inl hle
  · rcases arg_beside_head he hcall hb with hhead | hbehind
    · exact .inr hhead
    · exact absurd hbehind (not_le.mpr (by order))

variable {first : Expr} (hbehind : first ∈ c.behind)
include hbehind

theorem hit_head {rest : List Edit} :
    Hit (.remove ⟨headStart c e, first.range.start⟩ :: rest) c.fnRange := by
  have hfills := (Call.ofExpr?_fills he hcall).1
  have hhead := (headStart_le he hcall).2.1
  have hfn := hfills.stands.fn.lt
  have hgap := (hfills.behind_lies hbehind).2.1
  exact hit_of_covers List.mem_cons_self hfn hhead hgap

/-- Taking away the head of a call leaves all arguments. -/
theorem head_spares {more : List Expr} (hargs : c.args = first :: more) :
    Spares e c.args [.remove ⟨headStart c e, first.range.start⟩] := by
  have hpairs := args_beside_head he hcall
  have hfirst := ((Call.ofExpr?_fills he hcall).1.behind_lies hbehind).1.proper.lt
  rw [hargs, List.pairwise_cons] at hpairs
  apply Call.spares_args he hcall (hit_head he hcall hbehind)
  · intro k hk
    refine ⟨hk, List.forall_mem_singleton.mpr ?_⟩
    rw [hargs] at hk
    rcases List.mem_cons.mp hk with rfl | hk
    · exact .inl le_rfl
    · exact (hpairs.1 k hk).imp_left fun hle => show first.range.start ≤ k.range.start by order
  · exact fun a ha => .inl ha

/-- Taking away the head of a call and its second argument leaves the other arguments. -/
theorem headAndSecond_spares {second : Expr} {more : List Expr}
    (hargs : c.args = first :: second :: more) (hsecond : second ∈ c.behind) :
    Spares e (first :: more) [.remove ⟨headStart c e, first.range.start⟩,
      .remove ⟨first.range.stop, second.range.stop⟩] := by
  have hfills := (Call.ofExpr?_fills he hcall).1
  have hpairs := args_beside_head he hcall
  have hhead := (headStart_le he hcall).2.1
  have hfn := hfills.stands.fn.lt
  rcases hfills.behind_lies hbehind with ⟨hnested, hgap, -⟩
  rcases hfills.behind_lies hsecond with ⟨hnested', hgap', -⟩
  have hlt := hnested.proper.lt
  have hlt' := hnested'.proper.lt
  rw [hargs, List.pairwise_cons, List.pairwise_cons] at hpairs
  rcases hpairs with ⟨hafterFirst, hafterSecond, -⟩
  have hle : first.range.stop ≤ second.range.start :=
    (hafterFirst second List.mem_cons_self).resolve_right (not_le.mpr (by order))
  apply Call.spares_args he hcall (hit_head he hcall hbehind)
  · intro k hk
    refine ⟨?_, ?_⟩
    · rw [hargs]
      exact (List.mem_cons.mp hk).elim (fun h => h ▸ List.mem_cons_self)
        fun h => List.mem_cons_of_mem _ (List.mem_cons_of_mem _ h)
    · rw [List.forall_mem_cons, List.forall_mem_singleton]
      change (first.range.start ≤ k.range.start ∨ k.range.stop ≤ headStart c e) ∧
        (second.range.stop ≤ k.range.start ∨ k.range.stop ≤ first.range.stop)
      -- the first argument stands between the edits, any other one behind both or before the call
      rcases List.mem_cons.mp hk with rfl | hk
      · exact ⟨.inl le_rfl, .inr le_rfl⟩
      · rcases hafterSecond k hk with hle' | hbefore
        · exact ⟨.inl (by order), .inl hle'⟩
        · exact ⟨.inr hbefore, .inr (by order)⟩
  · intro a ha
    rw [hargs] at ha
    rcases List.mem_cons.mp ha with rfl | ha
    · exact .inl List.mem_cons_self
    · rcases List.mem_cons.mp ha with rfl | ha
      · exact .inr ⟨_, List.mem_cons_of_mem _ List.mem_cons_self, hle, le_rfl⟩
      · exact .inl (List.mem_cons_of_mem _ ha)

end

section

variable {c c' : Call} (h : Call.Twins place place' ctx e e' c c')
include h

theorem checkIdentity_mirrors : Mirrored P e e' (checkIdentity ctx c e)
    (checkIdentity (ctx.moved source isFree) c' e') := by
  have hfacing := h.facing.args
  unfold checkIdentity
  cases hargs : c.args with
  | nil =>
    rw [hargs, List.forall₂_nil_left_iff] at hfacing
    rw [hfacing]
    exact .none
  | cons first more =>
    rw [hargs, List.forall₂_cons_left_iff] at hfacing
    rcases hfacing with ⟨first', more', hfirst, hmore, hargs'⟩
    rw [hargs']
    dsimp only
    cases hmore with
    | nil =>
      rw [h.range, h.range']
      exact .some (h.twins.kept hfirst)
    | @cons next next' more more' hnext hmore =>
      obtain ⟨_, hbehind⟩ := Call.behind_of_append
        (show c.args = [first] ++ next :: more from hargs) (by simp)
      obtain ⟨_, hbehind'⟩ := Call.behind_of_append
        (show c'.args = [first'] ++ next' :: more' from hargs') (by simp)
      exact .some (h.twins.mirrors_of_spares rfl (fun _ => h.facing.args)
        (head_spares h.twins.nested h.call (by simp [hbehind]) hargs)
        (head_spares h.twins.nested' h.call' (by simp [hbehind']) hargs'))

theorem checkAlways_mirrors : Mirrored P e e' (checkAlways ctx c e)
    (checkAlways (ctx.moved source isFree) c' e') := by
  have hfacing := h.facing.args
  unfold checkAlways
  generalize hargs : c.args = args, hargs' : c'.args = args' at hfacing
  cases hfacing with
  | nil => exact .none
  | @cons first first' more more' hfirst hmore =>
    cases hmore with
    | nil => exact .none
    | @cons second second' more more' hsecond hmore =>
      dsimp only
      cases hmore with
      | nil =>
        rw [h.range, h.range']
        exact .some (h.twins.kept hfirst)
      | @cons next next' more more' hnext hmore =>
        obtain ⟨_, hbehind⟩ := Call.behind_of_append
          (show c.args = [first, second] ++ next :: more from hargs) (by simp)
        obtain ⟨_, hbehind'⟩ := Call.behind_of_append
          (show c'.args = [first', second'] ++ next' :: more' from hargs') (by simp)
        exact .some (h.twins.mirrors_of_spares rfl (fun _ => .cons hfirst (.cons hnext hmore))
          (headAndSecond_spares h.twins.nested h.call (by simp [hbehind]) hargs
            (by simp [hbehind]))
          (headAndSecond_spares h.twins.nested' h.call' (by simp [hbehind']) hargs'
            (by simp [hbehind'])))

end

theorem checkBasics_mirrors (h : e.Twins place place' e') :
    Mirrored P e e' (checkBasics ctx e) (checkBasics (ctx.moved source isFree) e') := by
  have hchain := h.chain?
  have hcall := h.ofExpr? ctx
  unfold checkBasics
  rw [Context.ofExpr?_moved]
  generalize Chain.ofExpr? e = chain, Chain.ofExpr? e' = chain' at hchain ⊢
  cases hchain with
  | some hchain => exact checkBasicsChain_mirrors source isFree h hchain
  | none =>
    dsimp only
    generalize Call.ofExpr? ctx e = call, Call.ofExpr? ctx e' = call' at hcall ⊢
    cases hcall with
    | none => exact .none
    | @some c c' hcall =>
      dsimp only
      rw [Call.isOf, Call.isOf, Call.isOf, Call.isOf, ← hcall.facing.function]
      exact .ite (checkIdentity_mirrors source isFree hcall)
        (.ite (checkAlways_mirrors source isFree hcall) .none)

end

end Rule

end Terse
