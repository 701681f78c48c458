import Mathlib.Data.List.Chain
import Terse.Proofs.Edit.Removal
import Terse.Proofs.Grammar.Separators
import Terse.Proofs.View.Chain
import Terse.Proofs.View.Composition

/-!
# Shorter chains

A chain in a text is made of the texts of its terms with one operator between neighbours. Terms next
to each other are taken out of it as a run of items is taken out of a sequence, so that what is left
is a chain of the other terms, or the replacement if there are none.
-/

namespace Terse

open Token (Kind)
open SourceText

universe u

/-! ## One run of items -/

/-- Items of which those of one run are flagged. -/
def flagRun (rs run rest : List Range) : List (Range × Bool) :=
  rs.map (·, false) ++ (run.map (·, true) ++ rest.map (·, false))

theorem removeItemsFrom_kept (kept : Option Range) (rs : List Range)
    (items : List (Range × Bool)) :
    removeItemsFrom kept none (rs.map (·, false) ++ items) =
      removeItemsFrom (rs.getLast?.or kept) none items := by
  induction rs generalizing kept with
  | nil => rfl
  | cons r rs ih =>
    rw [List.map_cons, List.cons_append, removeItemsFrom, ih, List.getLast?_cons]
    -- the item is the last one that stays unless there is a later one
    cases rs.getLast? <;> rfl

theorem removeItemsFrom_flagged (kept : Option Range) (a b : Range) (run : List Range)
    (items : List (Range × Bool)) :
    removeItemsFrom kept (some (a, b)) (run.map (·, true) ++ items) =
      removeItemsFrom kept (some (a, run.getLast?.getD b)) items := by
  induction run generalizing b with
  | nil => rfl
  | cons r run ih =>
    rw [List.map_cons, List.cons_append, removeItemsFrom, List.getLast?_cons]
    exact ih r

/-- A run goes with what stands behind it. -/
theorem removeItems_flagRun {run rest : List Range} {a b : Range} (rs : List Range)
    (ha : run.head? = some a) (hb : rest.head? = some b) :
    removeItems (flagRun rs run rest) = [.remove ⟨a.start, b.start⟩] := by
  obtain ⟨run, rfl⟩ := List.head?_eq_some_iff.mp ha
  obtain ⟨rest, rfl⟩ := List.head?_eq_some_iff.mp hb
  have hrest := removeItemsFrom_kept (some b) rest []
  rw [List.append_nil] at hrest
  rw [removeItems, flagRun, removeItemsFrom_kept, List.map_cons, List.cons_append, removeItemsFrom,
    Option.map_none, Option.getD_none, removeItemsFrom_flagged, List.map_cons, removeItemsFrom,
    hrest]
  cases rest.getLast? <;> rfl

/-- A run at the end goes with what stands before it. -/
theorem removeItems_flagRun_nil {rs run : List Range} {k z : Range} (hk : rs.getLast? = some k)
    (hz : run.getLast? = some z) :
    removeItems (flagRun rs run []) = [.remove ⟨k.stop, z.stop⟩] := by
  obtain ⟨a, run, rfl⟩ := List.exists_cons_of_ne_nil (List.ne_nil_of_mem (List.mem_of_getLast? hz))
  have hlast : run.getLast?.getD a = z := by simpa [List.getLast?_cons] using hz
  rw [removeItems, flagRun, removeItemsFrom_kept, List.map_cons, List.cons_append, removeItemsFrom,
    Option.map_none, Option.getD_none, removeItemsFrom_flagged, hk, hlast]
  rfl

theorem unflagged_append {α : Type} {xs ys : List α} {flags : List Bool} (more : List Bool)
    (h : flags.length = xs.length) :
    unflagged (xs ++ ys) (flags ++ more) = unflagged xs flags ++ unflagged ys more := by
  simp [unflagged, List.zip_append h.symm]

theorem unflagged_replicate {α : Type} {xs : List α} {n : Nat} (h : xs.length = n) (flag : Bool) :
    unflagged xs (List.replicate n flag) = if flag then [] else xs := by
  subst h
  induction xs with
  | nil => simp
  | cons x xs ih => cases flag <;> simpa [List.replicate_succ] using ih

/-- Flags on one run leave what is before the run and what is behind it. -/
theorem unflagged_run {α : Type} {xs : List α} {before run behind : Nat}
    (h : xs.length = before + (run + behind)) :
    unflagged xs (List.replicate before false ++
        (List.replicate run true ++ List.replicate behind false)) =
      xs.take before ++ xs.drop (before + run) := by
  have hbefore : (xs.take before).length = before := by
    simp
    omega
  have hrun : ((xs.drop before).take run).length = run := by
    simp
    omega
  have hbehind : (xs.drop (before + run)).length = behind := by
    simp
    omega
  have hsplit : xs = xs.take before ++ ((xs.drop before).take run ++ xs.drop (before + run)) := by
    rw [← List.drop_drop, List.take_append_drop, List.take_append_drop]
  conv_lhs => rw [hsplit]
  rw [unflagged_append _ (by simp [hbefore]), unflagged_append _ (by simp [hrun]),
    unflagged_replicate hbefore, unflagged_replicate hrun, unflagged_replicate hbehind]
  rfl

/-- The items beside the run stay. -/
theorem staying_flagRun (s : SourceText) (rs run rest : List Range) :
    s.staying (flagRun rs run rest) =
      (s.withGaps "" (rs ++ (run ++ rest))).take rs.length ++
        (s.withGaps "" (rs ++ (run ++ rest))).drop (rs.length + run.length) := by
  have hranges : (flagRun rs run rest).map Prod.fst = rs ++ (run ++ rest) := by
    simp [flagRun, Function.comp_def]
  have hflags : (flagRun rs run rest).map Prod.snd = List.replicate rs.length false ++
      (List.replicate run.length true ++ List.replicate rest.length false) := by
    simp [flagRun, Function.comp_def]
  rw [staying, hranges, hflags]
  exact unflagged_run (by simp)

namespace Chain

/-! ## Terms and operators of a chain -/

variable {place : Location → Prop}

/-- An expression starts where the first one of its terms does, and ends where the last one does. -/
theorem termsOf_ends (symbol : String) {e : Expr} (he : e.Nested place) :
    (termsOf symbol e).head?.map (·.range.start) = some e.range.start ∧
      (termsOf symbol e).getLast?.map (·.range.stop) = some e.range.stop := by
  fun_induction termsOf symbol e with
  | case1 r s left right _ hleft hright =>
    have hl := hleft (he.children List.mem_cons_self).1
    have hr := hright (he.children (by simp [Expr.children])).1
    rw [Expr.Nested] at he
    obtain ⟨-, hstart, -, -, -, hstop⟩ := he
    constructor
    · rw [List.head?_append_of_ne_nil _ (termsOf_ne_nil symbol left), hl.1]
      exact congrArg some hstart.symm
    · rw [List.getLast?_append_of_ne_nil _ (termsOf_ne_nil symbol right), hr.2]
      exact congrArg some hstop
  | case2 | case3 => exact ⟨rfl, rfl⟩

/-- The operator stands alone between neighbouring terms. -/
theorem termsOf_alone {text symbol : String} {root e : Expr} (h : ReadFrom text (.expr root))
    (he : e ∈ root.nodes) (hsymbol : symbol ≠ "-") :
    (termsOf symbol e).IsChain fun a b =>
      (Kind.operator symbol).AloneIn
        ((ofString text).extract ⟨a.range.stop, b.range.start⟩) := by
  fun_induction termsOf symbol e with
  | case1 r s left right hs hleft hright =>
    obtain rfl := eq_of_beq hs
    have hleftNode := Expr.mem_nodes_trans
      (Expr.mem_nodes_of_child List.mem_cons_self left.mem_nodes_self) he
    have hrightNode := Expr.mem_nodes_trans
      (Expr.mem_nodes_of_child (by simp [Expr.children]) right.mem_nodes_self) he
    refine List.isChain_append.mpr ⟨hleft hleftNode, hright hrightNode, ?_⟩
    -- the last term on the left ends with the left operand, the first one on the right starts
    -- with the right operand
    intro a ha b hb
    have hstop := (termsOf_ends s (h.nested.nodes hleftNode).1).2
    have hstart := (termsOf_ends s (h.nested.nodes hrightNode).1).1
    rw [ha] at hstop
    rw [hb] at hstart
    have halone := h.operator_alone he hsymbol
    rwa [← Option.some.inj hstop, ← Option.some.inj hstart] at halone
  | case2 | case3 => exact .singleton _

/-! ## Taking terms out -/

theorem isEmpty_without_iff (c : Chain) {first last : Nat} (hle : first ≤ last)
    (hlast : last < c.terms.length) :
    (c.without first last).terms.isEmpty = true ↔ first = 0 ∧ last + 1 = c.terms.length := by
  have hlength : (c.without first last).terms.length = first + (c.terms.length - (last + 1)) := by
    simp [without]
    omega
  rw [List.isEmpty_iff_length_eq_zero, hlength]
  omega

/-- Taking terms out of a chain is taking a run of items out of a sequence. -/
theorem removeTerms_eq_removeItems (c : Chain) {first last : Nat} (hle : first ≤ last)
    (hlast : last < c.terms.length) (hsome : (c.without first last).terms.isEmpty = false)
    (replacement : String) :
    c.removeTerms first last replacement =
      removeItems (flagRun ((c.terms.take first).map Expr.range)
        ((c.run first last).terms.map Expr.range) ((c.terms.drop (last + 1)).map Expr.range)) := by
  have hnot : ¬ (first = 0 ∧ last + 1 = c.terms.length) := by
    rw [← isEmpty_without_iff c hle hlast, hsome]
    simp
  have hfirst := List.getElem?_eq_getElem (show first < c.terms.length by omega)
  have hend := List.getElem?_eq_getElem hlast
  have hlength : (c.run first last).terms.length = last + 1 - first := by
    simp [run]
    omega
  rw [removeTerms, if_neg hnot]
  cases hnext : c.terms[last + 1]? with
  | some next =>
    have hhead : ((c.run first last).terms.map Expr.range).head? = some c.terms[first].range := by
      rw [List.head?_map, run, List.head?_drop, List.getElem?_take_of_lt (by omega), hfirst]
      rfl
    have hrest : ((c.terms.drop (last + 1)).map Expr.range).head? = some next.range := by
      rw [List.head?_map, List.head?_drop, hnext]
      rfl
    rw [removeItems_flagRun _ hhead hrest]
    simp [hfirst]
  | none =>
    -- nothing stands behind the run, so that a term stands before it
    have hcount := List.getElem?_eq_none_iff.mp hnext
    have hdrop : c.terms.drop (last + 1) = [] := List.drop_eq_nil_iff.mpr hcount
    have hbefore := List.getElem?_eq_getElem (show first - 1 < c.terms.length by omega)
    have hkept : ((c.terms.take first).map Expr.range).getLast? =
        some c.terms[first - 1].range := by
      rw [List.getLast?_map, List.getLast?_eq_getElem?, List.length_take,
        Nat.min_eq_left (by omega), List.getElem?_take_of_lt (by omega), hbefore]
      rfl
    have hrun : ((c.run first last).terms.map Expr.range).getLast? =
        some c.terms[last].range := by
      rw [List.getLast?_map, List.getLast?_eq_getElem?, hlength, run, List.getElem?_drop,
        List.getElem?_take_of_lt (by omega), show first + (last + 1 - first - 1) = last by omega,
        hend]
      rfl
    rw [hdrop, List.map_nil, removeItems_flagRun_nil hkept hrun]
    simp [hend, hbefore]

/-- The terms of a chain that is found fill its range. -/
theorem inLine_terms {e : Expr} {c : Chain} (he : e.Nested place) (h : ofExpr? e = some c) :
    InLine id (Range.Proper place) c.range.start (c.terms.map Expr.range) c.range.stop ∧
      (c.terms.map Expr.range).head?.map (·.start) = some c.range.start := by
  obtain ⟨hfills, hrange⟩ := ofExpr?_fills he h
  have hends := termsOf_ends c.symbol he
  rw [← (ofExpr?_terms h).2, ← hrange] at hends
  have hranges : Between id (Range.Proper place) c.range.start (c.terms.map Expr.range)
      c.range.stop := hfills.terms.map Expr.range (fun _ _ => rfl) fun _ h => h.proper
  -- nothing stands between the last term and the end of the chain
  obtain ⟨stop, hline, -⟩ := hranges
  obtain ⟨t, ht, hstop⟩ := Option.map_eq_some_iff.mp hends.2
  have hlast : (c.terms.map Expr.range).getLast? = some t.range := by
    rw [List.getLast?_map, ht]
    rfl
  have hfirst : (c.terms.map Expr.range).head?.map (·.start) = some c.range.start := by
    rw [List.head?_map, Option.map_map]
    exact hends.1
  rw [← hline.stop_getLast hlast] at hline
  exact ⟨hstop ▸ hline, hfirst⟩

/-- A chain in a text is made of the texts of its terms and of what stands between them. -/
theorem joinGaps_terms {s : SourceText} {e : Expr} {c : Chain} (he : e.Nested s.HasPlace)
    (h : ofExpr? e = some c) :
    joinGaps (s.withGaps "" (c.terms.map Expr.range)) = s.extract c.range := by
  obtain ⟨hline, hstart⟩ := inLine_terms he h
  obtain ⟨r, hfirst, hr⟩ := Option.map_eq_some_iff.mp hstart
  obtain ⟨final, hfinal⟩ : ∃ final, (c.terms.map Expr.range).getLast? = some final := by
    have hne := List.ne_nil_of_mem (List.mem_of_mem_head? hfirst)
    exact ⟨_, List.getLast?_eq_some_getLast hne⟩
  have hstop : final.stop = c.range.stop := hline.stop_getLast hfinal
  rw [joinGaps_withGaps "" hline.between hfirst hfinal, hr, hstop]

/-- Taking terms out of a chain in a text leaves the texts of the others, each with the gap behind
it except for the last one. -/
theorem apply_removeTerms {s : SourceText} {e : Expr} {c : Chain} {first last : Nat}
    (he : e.Nested s.HasPlace) (h : ofExpr? e = some c) (hle : first ≤ last)
    (hlast : last < c.terms.length) (replacement : String) :
    let pieces := s.withGaps "" (c.terms.map Expr.range)
    (s.apply (c.removeTerms first last replacement)).map SourceText.text =
      .ok (s.before c.range.start ++
        (if (c.without first last).terms.isEmpty then replacement
          else joinGaps (pieces.take first ++ pieces.drop (last + 1))) ++
        s.behind c.range.stop) := by
  intro pieces
  have hfills := (ofExpr?_fills he h).1
  cases hnone : (c.without first last).terms.isEmpty with
  | true =>
    have hedit : c.removeTerms first last replacement = [.replace c.range replacement] := by
      rw [removeTerms, if_pos ((isEmpty_without_iff c hle hlast).mp hnone)]
    have hline : Between Edit.range (fun e => e.range.Proper s.HasPlace) Location.origin
        [.replace c.range replacement] c.range.stop := by
      rw [between_cons, between_nil]
      exact ⟨hfills.range.start.origin_le, hfills.range, le_rfl⟩
    rw [hedit, apply_of_proper_line hline]
    rfl
  | false =>
    obtain ⟨hline, hfirst⟩ := inLine_terms he h
    generalize hitems : flagRun ((c.terms.take first).map Expr.range)
      ((c.run first last).terms.map Expr.range) ((c.terms.drop (last + 1)).map Expr.range) = items
    have hranges : items.map Prod.fst = c.terms.map Expr.range := by
      conv_rhs => rw [c.terms_eq hle]
      simp [← hitems, flagRun, Function.comp_def]
    have hkept : ∃ i ∈ items, i.2 = false := by
      obtain ⟨t, ht⟩ := List.isEmpty_eq_false_iff_exists_mem.mp hnone
      refine ⟨(t.range, false), ?_, rfl⟩
      rw [← hitems, flagRun, List.mem_append, List.mem_append]
      rcases List.mem_append.mp ht with ht | ht
      · exact .inl (List.mem_map_of_mem (List.mem_map_of_mem ht))
      · exact .inr (.inr (List.mem_map_of_mem (List.mem_map_of_mem ht)))
    rw [← hranges, inLine_map] at hline
    rw [← hranges, List.head?_map, Option.map_map] at hfirst
    -- the indices of the terms are those of the pieces
    have hstaying : s.staying items = pieces.take first ++ pieces.drop (last + 1) := by
      have hbefore : ((c.terms.take first).map Expr.range).length = first := by
        simp
        omega
      have hrun : first + ((c.run first last).terms.map Expr.range).length = last + 1 := by
        simp [run]
        omega
      rw [← hitems, staying_flagRun, hbefore, hrun, ← List.map_append, ← List.map_append,
        ← c.terms_eq hle]
    rw [removeTerms_eq_removeItems c hle hlast hnone, hitems,
      apply_removeItems hline hkept hfills.range.start hfirst, hstaying]
    rfl

end Chain

open Chain

/-- An expression that is found to be a chain denotes the composition of its terms in the order that
they are applied in. In a text the chain is made of the texts of its terms, with only its operator
between neighbours. Taking out the terms from `first` to `last` leaves the other ones with one of
the operators between neighbours, or the replacement if there are no other ones. Whatever the chain
denotes, the others denote too when those taken out compose to nothing but identities; and the chain
denotes whatever the others do when those taken out compose to the identity of every type. -/
theorem Chain.removeTerms_preserves {e : Expr} {c : Chain} (h : Chain.ofExpr? e = some c) :
    (∀ (means : Interpretation.{u}) (A B : Type u) (f : A → B),
      Denotes means e A B f ↔ Composed (Denotes means) c.applicationOrder A B f) ∧
    ∀ first last : Nat, first ≤ last → last < c.terms.length →
      (∀ (text replacement : String) (root : Expr), ReadFrom text (.expr root) → e ∈ root.nodes →
        let s := ofString text
        let pieces := s.withGaps "" (c.terms.map Expr.range)
        s.before c.range.start ++ joinGaps pieces ++ s.behind c.range.stop = text ∧
        (c.terms.IsChain fun a b =>
          (Kind.operator c.symbol).AloneIn (s.extract ⟨a.range.stop, b.range.start⟩)) ∧
        applyEdits text (c.removeTerms first last replacement) =
          .ok (s.before c.range.start ++
            (if (c.without first last).terms.isEmpty then replacement
              else joinGaps (pieces.take first ++ pieces.drop (last + 1))) ++
            s.behind c.range.stop)) ∧
      ∀ means : Interpretation.{u},
        ((∀ (A B : Type u) (i : A → B),
            Composed (Denotes means) (c.run first last).applicationOrder A B i →
              IsIdentity A B i) →
          ∀ (A B : Type u) (f : A → B), Denotes means e A B f →
            Composed (Denotes means) (c.without first last).applicationOrder A B f) ∧
        ((∀ A : Type u, Composed (Denotes means) (c.run first last).applicationOrder A A id) →
          ∀ (A B : Type u) (f : A → B),
            Composed (Denotes means) (c.without first last).applicationOrder A B f →
              Denotes means e A B f) := by
  refine ⟨fun means A B f => denotes_iff_composed h, ?_⟩
  intro first last hle hlast
  -- the terms taken out stand in one block, also where the chain is applied from right to left
  obtain ⟨es, es', hall, hothers⟩ := c.exists_applicationOrder hle
  refine ⟨?_, ?_⟩
  · intro text replacement root hread he s pieces
    have hnested := (hread.nested.nodes he).1
    have hrange := (ofExpr?_fills hnested h).1.range
    obtain ⟨hsymbol, hterms⟩ := ofExpr?_terms h
    refine ⟨?_, ?_, apply_removeTerms hnested h hle hlast replacement⟩
    · rw [joinGaps_terms hnested h, before_append_extract hrange.start hrange.stop hrange.le,
        text_ofString]
    · rw [hterms]
      exact termsOf_alone hread he (by rcases hsymbol with hs | hs <;> simp [hs])
  · intro means
    constructor
    · intro hrun A B f hf
      rw [denotes_iff_composed h, hall] at hf
      rw [hothers]
      exact hf.of_identity_run hrun
    · intro hrun A B f hf
      rw [denotes_iff_composed h, hall]
      rw [hothers] at hf
      exact hf.insert_identity_run hrun

/-- Two negations in the middle of a chain go with one operator each. Where both of them negate
truth values, the other terms denote what the chain does. -/
theorem Chain.removeTerms_preserves_negations : ∃ root e c,
    ReadFrom "(f << not << not << g) x" (.expr root) ∧ e ∈ root.nodes ∧ Chain.ofExpr? e = some c ∧
      applyEdits "(f << not << not << g) x" (c.removeTerms 1 2 "identity") = .ok "(f << g) x" ∧
      ∀ means : Interpretation.{0},
        (∀ t ∈ (c.run 1 2).applicationOrder, ∀ (A B : Type) (i : A → B), Denotes means t A B i →
          A = Bool ∧ B = Bool ∧ i ≍ not) →
        ∀ (A B : Type) (f : A → B), Denotes means e A B f →
          Composed (Denotes means) (c.without 1 2).applicationOrder A B f := by
  have hread : (Expr.parse "(f << not << not << g) x").toOption.any (fun root =>
      root.nodes.any fun e => (Chain.ofExpr? e).any fun c =>
        decide (2 < c.terms.length) && decide ((c.run 1 2).applicationOrder.length = 2) &&
          let s := ofString "(f << not << not << g) x"
          let pieces := s.withGaps "" (c.terms.map Expr.range)
          s.before c.range.start ++
            (if (c.without 1 2).terms.isEmpty then "identity"
              else joinGaps (pieces.take 1 ++ pieces.drop 3)) ++
            s.behind c.range.stop == "(f << g) x") = true := by decide +kernel
  obtain ⟨root, hparse, hany⟩ := exists_ok_of_any hread
  obtain ⟨e, he, hsome⟩ := List.any_eq_true.mp hany
  obtain ⟨c, hc, htest⟩ := (Option.any_eq_true _ _).mp hsome
  rw [Bool.and_eq_true, Bool.and_eq_true, decide_eq_true_eq, decide_eq_true_eq,
    beq_iff_eq] at htest
  obtain ⟨⟨hlength, htwo⟩, htext⟩ := htest
  obtain ⟨-, hshort⟩ := Chain.removeTerms_preserves hc
  obtain ⟨happly, hmeaning⟩ := hshort 1 2 (by decide) hlength
  refine ⟨root, e, c, .expr hparse, he, hc, ?_, ?_⟩
  · rw [(happly _ "identity" root (.expr hparse) he).2.2]
    exact congrArg Except.ok htext
  · intro means hnot
    refine (hmeaning means).1 ?_
    obtain ⟨t, t', hrun⟩ := List.length_eq_two.mp htwo
    rw [hrun] at hnot ⊢
    intro A B i hi
    change Composed (Denotes means) ([t] ++ [t']) A B i at hi
    obtain ⟨C, g, h, hg, hh, rfl⟩ := composed_append.mp hi
    obtain ⟨rfl, rfl, hgNot⟩ := hnot t (by simp) A C g (composed_singleton.mp hg)
    obtain ⟨-, rfl, hhNot⟩ := hnot t' (by simp) Bool B h (composed_singleton.mp hh)
    -- a truth value that is negated twice is what it was
    have hid : not ∘ not = (id : Bool → Bool) := funext Bool.not_not
    rw [eq_of_heq hgNot, eq_of_heq hhNot, hid]
    exact .id Bool

end Terse
