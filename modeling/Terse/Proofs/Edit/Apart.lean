import Mathlib.Data.List.Infix
import Mathlib.Data.List.Pairwise
import Mathlib.Order.Basic
import Mathlib.Tactic.Order
import Terse.Edit.Basic

/-!
# Stretches that stay apart

Edits are tested for clashes in two places: by their locations when a finding is reported, and by
their indices when they are written. Both tests sort and look at neighbours only. Here a stretch is
a pair of ends in any linear order, and the neighbour test is shown to be a test of all pairs.
-/

namespace Terse

variable {κ : Type} [LinearOrder κ] {α : Type}

/-- Two stretches have nothing in common and do not both insert at one place. -/
def Apart (a b : κ × κ) : Prop := (a.2 ≤ b.1 ∨ b.2 ≤ a.1) ∧ ¬ (a.1 = a.2 ∧ a = b)

/-- The first stretch ends before the second one starts, and they do not insert at one place. -/
def Before (a b : κ × κ) : Prop := a.2 ≤ b.1 ∧ ¬ (a.1 = a.2 ∧ a = b)

/-- The order of stretches by their starts, and by their ends among those that start together. -/
def InOrder (a b : κ × κ) : Prop := a.1 < b.1 ∨ a.1 = b.1 ∧ a.2 ≤ b.2

theorem apart_symm {a b : κ × κ} (h : Apart a b) : Apart b a := by
  refine ⟨h.1.symm, ?_⟩
  rintro ⟨hb, rfl⟩
  exact h.2 ⟨hb, rfl⟩

/-- A stretch that is not inverted is not apart from itself. -/
theorem not_apart_self {a : κ × κ} (ha : a.1 ≤ a.2) : ¬ Apart a a := by
  rintro ⟨h, h'⟩
  exact h' ⟨le_antisymm ha (or_self_iff.mp h), rfl⟩

theorem before_apart {a b : κ × κ} (h : Before a b) : Apart a b := ⟨.inl h.1, h.2⟩

/-- A stretch that ends where another one starts or before it is apart from that one, unless both
are empty. -/
theorem apart_of_le {a b : κ × κ} (h : a.2 ≤ b.1) (hne : a.1 < b.2) : Apart a b := by
  refine ⟨.inl h, ?_⟩
  rintro ⟨ha, rfl⟩
  exact absurd ha hne.ne

/-- Stretches that are not inverted can be passed one after the other. -/
theorem before_trans {a b c : κ × κ} (hb : b.1 ≤ b.2) (hab : Before a b) (hbc : Before b c) :
    Before a c := by
  refine ⟨hab.1.trans (hb.trans hbc.1), ?_⟩
  rintro ⟨ha, rfl⟩
  have h1 := hab.1
  have h2 := hbc.1
  refine hbc.2 ⟨by order, Prod.ext ?_ ?_⟩ <;> order

/-- Of two stretches in order that are apart, the first one comes before the second one. -/
theorem before_of_in_order {a b : κ × κ} (hb : b.1 ≤ b.2) (h : InOrder a b) (hab : Apart a b) :
    Before a b := by
  refine ⟨?_, hab.2⟩
  rcases hab.1 with h1 | h1
  · exact h1
  · rcases h with h2 | ⟨h2, h3⟩ <;> order

theorem in_order_trans {a b c : κ × κ} (hab : InOrder a b) (hbc : InOrder b c) : InOrder a c := by
  unfold InOrder at *
  rcases hab with h | ⟨h, h'⟩ <;> rcases hbc with h2 | ⟨h2, h2'⟩
  · exact .inl (h.trans h2)
  · exact .inl (h2 ▸ h)
  · exact .inl (h ▸ h2)
  · exact .inr ⟨h.trans h2, h'.trans h2'⟩

theorem in_order_total (a b : κ × κ) : InOrder a b ∨ InOrder b a := by
  unfold InOrder
  rcases lt_trichotomy a.1 b.1 with h | h | h
  · exact .inl (.inl h)
  · rcases le_total a.2 b.2 with h' | h'
    · exact .inl (.inr ⟨h, h'⟩)
    · exact .inr (.inr ⟨h.symm, h'⟩)
  · exact .inr (.inl h)

/-! ## The neighbour test -/

theorem firstNeighbours_eq_none_iff (related : α → α → Bool) (xs : List α) :
    firstNeighbours related xs = none ↔ xs.IsChain fun a b => related a b = false := by
  induction xs with
  | nil => simp [firstNeighbours]
  | cons a xs ih =>
    cases xs with
    | nil => simp [firstNeighbours]
    | cons b xs =>
      rw [List.isChain_cons_cons, ← ih]
      simp [firstNeighbours, List.find?_cons]
      cases related a b <;> simp

theorem firstNeighbours_cons_cons (related : α → α → Bool) (x y : α) (xs : List α) :
    firstNeighbours related (x :: y :: xs) =
      if related x y then some (x, y) else firstNeighbours related (y :: xs) := by
  simp only [firstNeighbours, List.tail_cons, List.zip_cons_cons, List.find?_cons]
  cases related x y <;> simp

/-- What is found among neighbours are two that are related, one right behind the other. -/
theorem firstNeighbours_eq_some {related : α → α → Bool} {xs : List α} {a b : α}
    (h : firstNeighbours related xs = some (a, b)) :
    related a b = true ∧ [a, b] <:+: xs := by
  induction xs with
  | nil => simp [firstNeighbours] at h
  | cons x xs ih =>
    cases xs with
    | nil => simp [firstNeighbours] at h
    | cons y xs =>
      rw [firstNeighbours_cons_cons] at h
      split at h
      · cases h
        exact ⟨‹_›, List.infix_iff_prefix_suffix.mpr ⟨_, List.prefix_append [a, b] xs,
          List.suffix_rfl⟩⟩
      · exact ⟨(ih h).1, (ih h).2.trans (List.suffix_cons x _).isInfix⟩

/-- Neighbours that are related by what they stand for are found as those are. -/
theorem firstNeighbours_map {β : Type} {related : α → α → Bool} {related' : β → β → Bool}
    (f : α → β) {xs : List α}
    (h : ∀ a ∈ xs, ∀ b ∈ xs, related' (f a) (f b) = related a b) :
    firstNeighbours related' (xs.map f) = (firstNeighbours related xs).map (Prod.map f f) := by
  induction xs with
  | nil => rfl
  | cons x xs ih =>
    cases xs with
    | nil => rfl
    | cons y xs =>
      have hrest := ih fun a ha b hb => h a (List.mem_cons_of_mem x ha) b (List.mem_cons_of_mem x hb)
      rw [List.map_cons] at hrest ⊢
      rw [List.map_cons, firstNeighbours_cons_cons, firstNeighbours_cons_cons,
        h x (by simp) y (by simp), hrest]
      split <;> rfl

/-- What a sorting test of stretches is made of: the order it sorts by, and the clash it looks for
among neighbours. -/
structure NeighbourTest (span : α → κ × κ) (le clash : α → α → Bool) : Prop where
  le_iff : ∀ a b, le a b = true ↔ InOrder (span a) (span b)
  clash_iff : ∀ a b, (span a).1 ≤ (span a).2 → (span b).1 ≤ (span b).2 →
    (clash a b = false ↔ Before (span a) (span b))

namespace NeighbourTest

variable {span : α → κ × κ} {le clash : α → α → Bool} (test : NeighbourTest span le clash)
include test

theorem sorted (xs : List α) :
    (xs.mergeSort le).Pairwise fun a b => InOrder (span a) (span b) := by
  have h : (xs.mergeSort le).Pairwise fun a b => le a b = true := List.pairwise_mergeSort
    (fun a b c hab hbc => (test.le_iff a c).mpr
      (in_order_trans ((test.le_iff a b).mp hab) ((test.le_iff b c).mp hbc)))
    (fun a b => by
      rw [Bool.or_eq_true, test.le_iff, test.le_iff]
      exact in_order_total _ _) xs
  exact h.imp fun {a b} hab => (test.le_iff a b).mp hab

/-- If no neighbours clash, each stretch comes before all later ones. -/
theorem pairwise_before {xs : List α} (hxs : ∀ x ∈ xs, (span x).1 ≤ (span x).2)
    (h : firstNeighbours clash (xs.mergeSort le) = none) :
    (xs.mergeSort le).Pairwise fun a b => Before (span a) (span b) := by
  rw [firstNeighbours_eq_none_iff] at h
  have hmem : ∀ x ∈ xs.mergeSort le, (span x).1 ≤ (span x).2 := by
    intro x hx
    exact hxs x (List.mem_mergeSort.mp hx)
  -- from here on only the chain matters, not that it was sorted
  generalize xs.mergeSort le = ys at h hmem
  induction ys with
  | nil => exact List.Pairwise.nil
  | cons a ys ih =>
    have hrest := ih (List.isChain_of_isChain_cons h) fun x hx => hmem x (List.mem_cons_of_mem a hx)
    refine List.pairwise_cons.mpr ⟨?_, hrest⟩
    cases ys with
    | nil => simp
    | cons b ys =>
      have hb := hmem b (by simp)
      have hab := (test.clash_iff a b (hmem a (by simp)) hb).mp (List.isChain_cons_cons.mp h).1
      -- `b` comes before everything behind it, so `a` does too
      intro c hc
      rcases List.mem_cons.mp hc with rfl | hc
      · exact hab
      · exact before_trans hb hab ((List.pairwise_cons.mp hrest).1 c hc)

/-- The test of sorted neighbours is the test of all pairs. -/
theorem eq_none_iff {xs : List α} (hxs : ∀ x ∈ xs, (span x).1 ≤ (span x).2) :
    firstNeighbours clash (xs.mergeSort le) = none ↔
      xs.Pairwise fun a b => Apart (span a) (span b) := by
  -- apartness is symmetric, so sorting does not change whether all pairs have it
  have hperm := List.mergeSort_perm xs le
  have hsymm : ∀ {a b : α}, Apart (span a) (span b) → Apart (span b) (span a) := apart_symm
  constructor
  · intro h
    exact (hperm.pairwise_iff hsymm).mp ((test.pairwise_before hxs h).imp before_apart)
  · intro h
    rw [firstNeighbours_eq_none_iff]
    -- among sorted stretches, apart means one before the other
    apply List.Pairwise.isChain
    have hboth := (test.sorted xs).and ((hperm.pairwise_iff hsymm).mpr h)
    refine hboth.imp_of_mem ?_
    intro a b ha hb hab
    have ha' := hxs a (List.mem_mergeSort.mp ha)
    have hb' := hxs b (List.mem_mergeSort.mp hb)
    exact (test.clash_iff a b ha' hb').mpr (before_of_in_order hb' hab.1 hab.2)

end NeighbourTest

end Terse
