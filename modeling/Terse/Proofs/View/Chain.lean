import Mathlib.Tactic.Order
import Terse.Proofs.Edit.Fix
import Terse.Proofs.Tree.Nesting
import Terse.View.Chain

/-!
# Where the terms of a chain stand

The terms of a chain follow one another from its start to its end, so that terms can be taken out
together with the operators beside them.
-/

namespace Terse.Chain

variable {place : Location → Prop}

/-- The terms of a chain stand in a row from its start to its end. -/
theorem termsOf_between {symbol : String} {e : Expr} (he : e.Nested place) :
    Between Expr.range (Expr.Nested place) e.range.start (termsOf symbol e) e.range.stop := by
  fun_induction termsOf symbol e with
  | case1 r s left right _ hleft hright =>
    have hl := he.children (c := left) List.mem_cons_self
    have hr := he.children (c := right) (by simp [Expr.children])
    rw [Expr.Nested] at he
    rcases he with ⟨-, -, -, hgap, -, -⟩
    exact ((hleft hl.1).mono hl.2.1 hgap.le).append ((hright hr.1).mono le_rfl hr.2.2)
  | case2 | case3 =>
    rw [between_cons, between_nil]
    exact ⟨le_rfl, he, le_rfl⟩

theorem termsOf_ne_nil (symbol : String) (e : Expr) : termsOf symbol e ≠ [] := by
  fun_induction termsOf symbol e with
  | case1 r s left right _ hleft => simp [hleft]
  | case2 | case3 => simp

/-- The terms of a chain are nodes of it. -/
theorem mem_nodes_of_mem_termsOf {symbol : String} {e t : Expr} (ht : t ∈ termsOf symbol e) :
    t ∈ e.nodes := by
  fun_induction termsOf symbol e with
  | case1 r s left right _ hleft hright =>
    rcases List.mem_append.mp ht with ht | ht
    · exact Expr.mem_nodes_of_child List.mem_cons_self (hleft ht)
    · exact Expr.mem_nodes_of_child (by simp [Expr.children]) (hright ht)
  | case2 | case3 =>
    rw [List.mem_singleton.mp ht]
    exact Expr.mem_nodes_self _

/-- A range that starts in one of the terms, and ends in one of them. -/
def Spans (terms : List Expr) (r : Range) : Prop :=
  (∃ t ∈ terms, t.range.start ≤ r.start ∧ r.start < t.range.stop) ∧
    ∃ t ∈ terms, t.range.start < r.stop ∧ r.stop ≤ t.range.stop

theorem Spans.mono {terms terms' : List Expr} {r : Range} (h : Spans terms r)
    (hsubset : terms ⊆ terms') : Spans terms' r := by
  rcases h with ⟨⟨t, ht, hstart⟩, t', ht', hstop⟩
  exact ⟨⟨t, hsubset ht, hstart⟩, t', hsubset ht', hstop⟩

/-- Every node of a chain starts in one of the terms, and ends in one of them. -/
theorem spans_of_mem_nodes {symbol : String} {e n : Expr} (he : e.Nested place)
    (hn : n ∈ e.nodes) : Spans (termsOf symbol e) n.range := by
  fun_induction termsOf symbol e generalizing n with
  | case1 r s left right _ hleft hright =>
    have hl := (he.children (c := left) List.mem_cons_self).1
    have hr := (he.children (c := right) (by simp [Expr.children])).1
    rw [Expr.nodes_eq] at hn
    rcases List.mem_cons.mp hn with rfl | hbelow
    · -- an operation starts with its left operand, and ends with the right one
      rw [Expr.Nested] at he
      rcases (hleft hl left.mem_nodes_self).mono (List.subset_append_left _ _) with
        ⟨⟨t, ht, hstart⟩, -⟩
      rcases (hright hr right.mem_nodes_self).mono (List.subset_append_right _ _) with
        ⟨-, t', ht', hstop⟩
      rw [← he.2.1] at hstart
      rw [he.2.2.2.2.2] at hstop
      exact ⟨⟨t, ht, hstart⟩, t', ht', hstop⟩
    · rcases List.mem_flatMap.mp hbelow with ⟨child, hchild, hin⟩
      rcases List.mem_cons.mp hchild with rfl | hmem
      · exact (hleft hl hin).mono (List.subset_append_left _ _)
      · rcases List.mem_singleton.mp hmem with rfl
        exact (hright hr hin).mono (List.subset_append_right _ _)
  | case2 | case3 =>
    rcases he.nodes hn with ⟨hnested, hstart, hstop⟩
    have hlt := hnested.proper.lt
    exact ⟨⟨_, List.mem_cons_self, hstart, by order⟩, _, List.mem_cons_self, by order, hstop⟩

/-- The terms of the chain follow one another in its range, and there are two of them at least. -/
structure Fills (place : Location → Prop) (c : Chain) : Prop where
  range : c.range.Proper place
  terms : Between Expr.range (Expr.Nested place) c.range.start c.terms c.range.stop
  two_le : 2 ≤ c.terms.length

/-- A chain that is read off a nested expression fills it with its terms. -/
theorem ofExpr?_fills {e : Expr} {c : Chain} (he : e.Nested place) (h : ofExpr? e = some c) :
    c.Fills place ∧ c.range = e.range := by
  unfold ofExpr? at h
  split at h
  · rename_i r symbol left right
    split at h
    · cases h
      refine ⟨⟨he.proper, termsOf_between he, ?_⟩, rfl⟩
      have hl := List.length_pos_iff.mpr (termsOf_ne_nil symbol left)
      have hr := List.length_pos_iff.mpr (termsOf_ne_nil symbol right)
      simp only [termsOf, beq_self_eq_true, if_true, List.length_append]
      omega
    · cases h
  · cases h

namespace Fills

variable {c : Chain} (h : c.Fills place)
include h

theorem term_lies {t : Expr} (ht : t ∈ c.terms) :
    t.Lies place c.range.start c.range.stop := by
  have hle : ∀ e : Expr, e.Nested place → e.range.start ≤ e.range.stop := fun _ => Expr.Nested.le
  exact ⟨h.terms.ok_of_mem ht, h.terms.start_le hle ht, h.terms.le_stop hle ht⟩

/-- Of two terms of a chain the first stops before the second starts. -/
theorem stop_le_start {i j : Nat} {a b : Expr} (ha : c.terms[i]? = some a)
    (hb : c.terms[j]? = some b) (hij : i < j) : a.range.stop ≤ b.range.start := by
  rcases List.getElem?_eq_some_iff.mp ha with ⟨hi, rfl⟩
  rcases List.getElem?_eq_some_iff.mp hb with ⟨hj, rfl⟩
  exact List.pairwise_iff_getElem.mp (h.terms.pairwise fun _ => Expr.Nested.le) i j hi hj hij

/-- No term fills the chain, since there is another one beside it. -/
theorem term_part {t : Expr} (ht : t ∈ c.terms) : t.PartOf place c.range := by
  have hlies := h.term_lies ht
  refine ⟨hlies, ?_⟩
  rcases List.getElem?_of_mem ht with ⟨i, hi⟩
  have htwo := h.two_le
  by_cases hzero : i = 0
  · have hnext := List.getElem?_eq_getElem (show 1 < c.terms.length by omega)
    have hgap := h.stop_le_start hi hnext (by omega)
    have hother := h.term_lies (List.mem_of_getElem? hnext)
    have hlt := hother.1.proper.lt
    have hstop := hother.2.2
    exact .inr (by order)
  · have hfirst := List.getElem?_eq_getElem (show 0 < c.terms.length by omega)
    have hgap := h.stop_le_start hfirst hi (by omega)
    have hother := h.term_lies (List.mem_of_getElem? hfirst)
    have hlt := hother.1.proper.lt
    have hstart := hother.2.1
    exact .inl (by order)

/-- Terms that stand next to each other can be taken out, or the whole chain is replaced. -/
theorem removeTerms_fits {first last : Nat} (hle : first ≤ last) (hlast : last < c.terms.length)
    (replacement : String) : FixFits place c.range (c.removeTerms first last replacement) := by
  unfold removeTerms
  have hfirst := List.getElem?_eq_getElem (show first < c.terms.length by omega)
  have hstop := List.getElem?_eq_getElem hlast
  split
  · exact fixFits_single h.range.fits_self
  · rename_i hall
    split
    · -- the terms go with the operator behind them
      rename_i next start _ _ hnext hstart
      have hnextLies := h.term_lies (List.mem_of_getElem? hnext)
      have hstartLies := h.term_lies (List.mem_of_getElem? hstart)
      have hgap := h.stop_le_start hstart hnext (by omega)
      have hlt := hstartLies.1.proper.lt
      exact fixFits_single (Range.fits_between (by order) hstartLies.2.1
        (hnextLies.1.le.trans hnextLies.2.2) hstartLies.1.proper.start hnextLies.1.proper.start)
    · -- the terms go with the operator before them
      rename_i stop before hnone hend hbefore
      rw [List.getElem?_eq_none_iff] at hnone
      have hendLies := h.term_lies (List.mem_of_getElem? hend)
      have hbeforeLies := h.term_lies (List.mem_of_getElem? hbefore)
      have hgap := h.stop_le_start hbefore hend (by omega)
      have hlt := hendLies.1.proper.lt
      exact fixFits_single (Range.fits_between (by order)
        (hbeforeLies.2.1.trans hbeforeLies.1.le) hendLies.2.2 hbeforeLies.1.proper.stop
        hendLies.1.proper.stop)
    · rename_i hnext hnone
      cases hnext' : c.terms[last + 1]? with
      | some next => exact absurd hfirst (hnext next _ hnext')
      | none =>
        have hbefore := List.getElem?_eq_getElem (show first - 1 < c.terms.length by omega)
        exact absurd hbefore (hnone _ _ hnext' hstop)

end Fills

end Terse.Chain
