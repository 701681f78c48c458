import Mathlib.Data.List.Nodup
import Mathlib.Data.List.Pairwise
import Terse.Proofs.Tree.Nesting

/-!
# The order of nodes

The direct parts of a nested expression stand one behind the other. So two nodes are one in the
other, or the one ends before the other starts, and no node occurs twice.
-/

namespace Terse

/-- Two of the things that stand one behind the other are the same, or one ends before the other
starts. -/
theorem eq_or_apart_of_pairwise {α : Type} {range : α → Range} {xs : List α} {x y : α}
    (h : xs.Pairwise fun a b => (range a).stop ≤ (range b).start) (hx : x ∈ xs) (hy : y ∈ xs) :
    x = y ∨ (range x).stop ≤ (range y).start ∨ (range y).stop ≤ (range x).start := by
  have hsymm : Std.Symm fun a b : α =>
      (range a).stop ≤ (range b).start ∨ (range b).stop ≤ (range a).start := ⟨fun _ _ => Or.symm⟩
  have hpairs : xs.Pairwise fun a b =>
      (range a).stop ≤ (range b).start ∨ (range b).stop ≤ (range a).start := h.imp .inl
  by_cases heq : x = y
  · exact .inl heq
  · exact .inr (hpairs.forall hx hy heq)

end Terse

namespace Terse.Expr

variable {place : Location → Prop}

/-- A proper part of a node leaves some of it out. -/
theorem Nested.part_of_mem {e x : Expr} (h : e.Nested place) (hx : x ∈ e.nodes) (hne : x ≠ e) :
    x.PartOf place e.range := by
  rw [nodes_eq] at hx
  rcases List.mem_cons.mp hx with rfl | hx
  · exact absurd rfl hne
  · rcases List.mem_flatMap.mp hx with ⟨c, hc, hx⟩
    exact (h.children_part hc).of_lies ((h.children hc).1.nodes hx)

/-- Two nodes are one in the other, or one of them ends before the other starts. -/
theorem Nested.mem_or_apart {e x y : Expr} (h : e.Nested place) (hx : x ∈ e.nodes)
    (hy : y ∈ e.nodes) :
    x ∈ y.nodes ∨ y ∈ x.nodes ∨ x.range.stop ≤ y.range.start ∨ y.range.stop ≤ x.range.start := by
  induction e using induction_on_children with
  | step e ih =>
    have hx' := hx
    have hy' := hy
    rw [nodes_eq] at hx' hy'
    rcases List.mem_cons.mp hx' with rfl | hx'
    · exact .inr (.inl hy)
    rcases List.mem_cons.mp hy' with rfl | hy'
    · exact .inl hx
    rcases List.mem_flatMap.mp hx' with ⟨c, hc, hxc⟩
    rcases List.mem_flatMap.mp hy' with ⟨d, hd, hyd⟩
    have hxlies := (h.children hc).1.nodes hxc
    have hylies := (h.children hd).1.nodes hyd
    -- different parts stand one behind the other
    rcases eq_or_apart_of_pairwise h.children_pairwise hc hd with rfl | hle | hle
    · exact ih c hc (h.children hc).1 hxc hyd
    · exact .inr (.inr (.inl (hxlies.2.2.trans (hle.trans hylies.2.1))))
    · exact .inr (.inr (.inr (hylies.2.2.trans (hle.trans hxlies.2.1))))

/-- No node of a nested expression occurs twice. -/
theorem Nested.nodup_nodes {e : Expr} (h : e.Nested place) : e.nodes.Nodup := by
  induction e using induction_on_children with
  | step e ih =>
    rw [nodes_eq, List.nodup_cons, List.nodup_flatMap]
    refine ⟨?_, fun c hc => ih c hc (h.children hc).1, ?_⟩
    · intro he
      rcases List.mem_flatMap.mp he with ⟨c, hc, he⟩
      rcases h.children_part hc with ⟨-, hstrict⟩
      have hlies := (h.children hc).1.nodes he
      rcases hstrict with hlt | hlt
      · exact absurd hlies.2.1 (not_le.mpr hlt)
      · exact absurd hlies.2.2 (not_le.mpr hlt)
    · apply h.children_pairwise.imp_of_mem
      intro c d hc hd hle x hxc hxd
      have hxlies := (h.children hc).1.nodes hxc
      have hxlies' := (h.children hd).1.nodes hxd
      have hlt := hxlies.1.proper.lt
      exact absurd (hxlies.2.2.trans (hle.trans hxlies'.2.1)) (not_le.mpr hlt)

/-- Of two nodes, the later one is a node of the earlier one or stands behind it. -/
theorem Nested.nodes_pairwise {e : Expr} (h : e.Nested place) :
    e.nodes.Pairwise fun x y => y ∈ x.nodes ∨ x.range.stop ≤ y.range.start := by
  induction e using induction_on_children with
  | step e ih =>
    rw [nodes_eq, List.pairwise_cons, List.pairwise_flatMap]
    refine ⟨fun y hy => .inl ?_, fun c hc => ih c hc (h.children hc).1, ?_⟩
    · rw [nodes_eq]
      exact List.mem_cons_of_mem e hy
    · apply h.children_pairwise.imp_of_mem
      intro c d hc hd hle x hx y hy
      have hxlies := (h.children hc).1.nodes hx
      have hylies := (h.children hd).1.nodes hy
      exact .inr (hxlies.2.2.trans (hle.trans hylies.2.1))

end Terse.Expr
