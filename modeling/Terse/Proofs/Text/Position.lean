import Mathlib.Tactic.Order
import Terse.Proofs.Text.Order
import Terse.Text.Source

/-!
# Places and prefixes

A location of a text is what is reached by counting rows and columns over a prefix of it, and the
number of characters before the location is the length of that prefix. So locations of a text are
ordered as their indices are.
-/

namespace Terse

/-- How many line feeds a text has, and how many characters stand behind the last one. -/
def rowAndColumn : List Char → Nat × Nat
  | [] => (0, 0)
  | c :: cs =>
    if c = '\n' then ((rowAndColumn cs).1 + 1, (rowAndColumn cs).2)
    else if (rowAndColumn cs).1 = 0 then (0, (rowAndColumn cs).2 + 1)
    else rowAndColumn cs

/-- The number of characters before a place that is given by whole rows and characters. -/
def indexIn (rows : List (List Char)) (r c : Nat) : Option Nat :=
  match rows[r]? with
  | none => none
  | some row =>
    if c ≤ row.length then some (SourceText.rowsLength (rows.take r) + c) else none

/-- A prefix is a shorter one and what stands behind that. -/
theorem take_eq_append {α : Type} (cs : List α) {i j : Nat} (h : i ≤ j) :
    cs.take j = cs.take i ++ (cs.take j).drop i := by
  conv_lhs => rw [← List.take_append_drop i (cs.take j), List.take_take, Nat.min_eq_left h]

theorem rowsOf_ne_nil (cs : List Char) : rowsOf cs ≠ [] := by
  cases cs with
  | nil => simp [rowsOf]
  | cons c cs =>
    rw [rowsOf]
    split
    · simp
    · split <;> simp

/-! ## Rows that grow at the front -/

/-- A column of the first row is a number of its characters. -/
theorem indexIn_zero (row : List Char) (rows : List (List Char)) (c : Nat) :
    indexIn (row :: rows) 0 c = if c ≤ row.length then some c else none := by
  simp [indexIn, SourceText.rowsLength]

/-- A column of a later row stands behind the first row and its line break. -/
theorem indexIn_succ (row : List Char) (rows : List (List Char)) (r c : Nat) :
    indexIn (row :: rows) (r + 1) c = (indexIn rows r c).map (row.length + 1 + ·) := by
  simp only [indexIn, List.getElem?_cons_succ, List.take_succ_cons,
    SourceText.rowsLength]
  cases rows[r]? with
  | none => rfl
  | some other =>
    by_cases hc : c ≤ other.length
    · simp only [hc, if_true, Option.map_some, Option.some.injEq]; omega
    · simp [hc]

/-! ## Places behind a first character -/

/-- A line break at the front adds a row before all others. -/
theorem rowAndColumn_newline (cs : List Char) (r c : Nat) :
    rowAndColumn ('\n' :: cs) = (r, c) ↔ ∃ r', r = r' + 1 ∧ rowAndColumn cs = (r', c) := by
  cases r <;> simp [rowAndColumn, Prod.ext_iff]

/-- Another character at the front moves what follows in its row, and only that. -/
theorem rowAndColumn_other {x : Char} (hx : x ≠ '\n') (cs : List Char) (r c : Nat) :
    rowAndColumn (x :: cs) = (r, c) ↔
      r = 0 ∧ (∃ c', c = c' + 1 ∧ rowAndColumn cs = (0, c')) ∨
        r ≠ 0 ∧ rowAndColumn cs = (r, c) := by
  by_cases h0 : (rowAndColumn cs).1 = 0
  · cases r <;> cases c <;> simp [rowAndColumn, hx, h0, Prod.ext_iff]
  · cases r <;> simp [rowAndColumn, hx, h0, Prod.ext_iff]

/-- Looking an index up in the rows inverts counting rows and columns. -/
theorem indexIn_rowsOf (cs : List Char) (r c i : Nat) :
    indexIn (rowsOf cs) r c = some i ↔ i ≤ cs.length ∧ rowAndColumn (cs.take i) = (r, c) := by
  induction cs generalizing r c i with
  | nil =>
    cases r with
    | zero => simp [rowsOf, indexIn_zero, rowAndColumn]; omega
    | succ r => simp [rowsOf, indexIn, rowAndColumn]
  | cons x cs ih =>
    by_cases hx : x = '\n'
    · subst hx
      have hcons : rowsOf ('\n' :: cs) = [] :: rowsOf cs := by simp [rowsOf]
      rw [hcons]
      cases i with
      | zero => cases r <;> simp [indexIn_zero, indexIn_succ, rowAndColumn]; omega
      | succ i =>
        rw [List.take_succ_cons, rowAndColumn_newline]
        cases r with
        | zero => simp [indexIn_zero]; omega
        | succ r =>
          have hsucc : ∀ k, 1 + k = i + 1 ↔ k = i := by omega
          simp [indexIn_succ, hsucc, ih]
    · -- any other character only makes the first row longer
      rcases List.exists_cons_of_ne_nil (rowsOf_ne_nil cs) with ⟨row, rows, hrows⟩
      have hcons : rowsOf (x :: cs) = (x :: row) :: rows := by simp [rowsOf, hx, hrows]
      have hrest := ih r
      rw [hcons]
      cases i with
      | zero => cases r <;> simp [indexIn_zero, indexIn_succ, rowAndColumn]; omega
      | succ i =>
        rw [List.take_succ_cons, rowAndColumn_other hx]
        cases r with
        | zero =>
          simp only [hrows, indexIn_zero] at hrest
          cases c with
          | zero => simp [indexIn_zero]
          | succ c =>
            have := hrest c i
            simp [indexIn_zero] at this ⊢
            simp [← this]
        | succ r =>
          simp only [hrows, indexIn_succ] at hrest
          have := hrest c i
          -- past the first row the index moves by one and the row and column stay
          have hsucc : ∀ k, row.length + 1 + 1 + k = i + 1 ↔ row.length + 1 + k = i := by omega
          simp [indexIn_succ, hsucc] at this ⊢
          exact this

/-! ## Counting from a location -/

namespace Location

/-- Counting on from a location adds columns in its row and starts anew in every later one. -/
theorem afterAll_eq (l : Location) (cs : List Char) :
    l.afterAll cs = if (rowAndColumn cs).1 = 0 then ⟨l.row, l.column + (rowAndColumn cs).2⟩
      else ⟨l.row + (rowAndColumn cs).1, (rowAndColumn cs).2 + 1⟩ := by
  induction cs generalizing l with
  | nil => rfl
  | cons x cs ih =>
    have hstep : l.afterAll (x :: cs) = (l.after x).afterAll cs := rfl
    rw [hstep, ih]
    by_cases hx : x = '\n' <;> by_cases h0 : (rowAndColumn cs).1 = 0 <;>
      simp [after, rowAndColumn, hx, h0] <;> omega

/-- Counting over a text counts over its parts in turn. -/
theorem afterAll_append (l : Location) (cs ds : List Char) :
    l.afterAll (cs ++ ds) = (l.afterAll cs).afterAll ds := List.foldl_append

/-- Every character moves the location on. -/
theorem lt_after (l : Location) (c : Char) : l < l.after c := by
  unfold after
  split <;> simp [lt_def]

theorem le_afterAll (l : Location) (cs : List Char) : l ≤ l.afterAll cs := by
  induction cs generalizing l with
  | nil => exact le_rfl
  | cons c cs ih => exact (lt_after l c).le.trans (ih (l.after c))

theorem lt_afterAll (l : Location) {cs : List Char} (h : cs ≠ []) : l < l.afterAll cs := by
  rcases List.exists_cons_of_ne_nil h with ⟨c, cs, rfl⟩
  exact (lt_after l c).trans_le (le_afterAll _ cs)

theorem afterAll_le_append (l : Location) (cs ds : List Char) :
    l.afterAll cs ≤ l.afterAll (cs ++ ds) := by
  rw [afterAll_append]
  exact le_afterAll _ ds

theorem afterAll_lt_append (l : Location) (cs : List Char) {ds : List Char} (h : ds ≠ []) :
    l.afterAll cs < l.afterAll (cs ++ ds) := by
  rw [afterAll_append]
  exact lt_afterAll _ h

end Location

namespace SourceText

theorem index?_eq_indexIn (s : SourceText) (r c : Nat) :
    s.index? ⟨r + 1, c + 1⟩ = indexIn s.rows r c := by
  unfold index? indexIn
  rfl

/-- Counting from the start of the text gives the rows and columns of what is passed, from one
on. -/
theorem afterAll_origin (cs : List Char) :
    Location.origin.afterAll cs = ⟨(rowAndColumn cs).1 + 1, (rowAndColumn cs).2 + 1⟩ := by
  rw [Location.afterAll_eq]
  split <;> simp [Location.origin, *] <;> omega

/-- A location belongs to a text when a prefix of the text leads to it, and its index is the
length of that prefix. -/
theorem index?_eq_some_iff (s : SourceText) (l : Location) (i : Nat) :
    s.index? l = some i ↔ i ≤ s.chars.length ∧ Location.origin.afterAll (s.chars.take i) = l := by
  rw [afterAll_origin]
  match l with
  | ⟨0, c⟩ => simp [index?]
  | ⟨r + 1, 0⟩ => simp [index?]
  | ⟨r + 1, c + 1⟩ =>
    rw [index?_eq_indexIn, rows, indexIn_rowsOf]
    simp [Prod.ext_iff]

/-- The location behind the first characters of a text leads back to their number. -/
theorem index?_afterAll {s : SourceText} {before rest : List Char}
    (h : s.chars = before ++ rest) :
    s.index? (Location.origin.afterAll before) = some before.length := by
  rw [index?_eq_some_iff, h]
  simp

theorem index?_le_length {s : SourceText} {l : Location} {i : Nat} (h : s.index? l = some i) :
    i ≤ s.chars.length := ((s.index?_eq_some_iff l i).mp h).1

/-- A later location has a greater index. -/
theorem index?_lt {s : SourceText} {a b : Location} {i j : Nat} (ha : s.index? a = some i)
    (hb : s.index? b = some j) (h : i < j) : a < b := by
  rcases (s.index?_eq_some_iff a i).mp ha with ⟨-, rfl⟩
  rcases (s.index?_eq_some_iff b j).mp hb with ⟨hj, rfl⟩
  rw [take_eq_append s.chars h.le]
  apply Location.afterAll_lt_append
  rw [ne_eq, List.drop_eq_nil_iff, List.length_take]
  omega

/-- Locations of a text are ordered as the characters they stand before. -/
theorem lt_iff_index_lt {s : SourceText} {a b : Location} {i j : Nat} (ha : s.index? a = some i)
    (hb : s.index? b = some j) : a < b ↔ i < j := by
  constructor
  · intro h
    by_contra hij
    rcases Nat.lt_or_eq_of_le (Nat.not_lt.mp hij) with hji | rfl
    · exact absurd (index?_lt hb ha hji) (by order)
    · have := ((s.index?_eq_some_iff a j).mp ha).2.symm.trans ((s.index?_eq_some_iff b j).mp hb).2
      order
  · exact index?_lt ha hb

theorem le_iff_index_le {s : SourceText} {a b : Location} {i j : Nat} (ha : s.index? a = some i)
    (hb : s.index? b = some j) : a ≤ b ↔ i ≤ j := by
  rw [← not_lt, lt_iff_index_lt hb ha, Nat.not_lt]

/-- Two locations of a text are the same when they stand before the same character. -/
theorem eq_iff_index_eq {s : SourceText} {a b : Location} {i j : Nat} (ha : s.index? a = some i)
    (hb : s.index? b = some j) : a = b ↔ i = j := by
  rw [le_antisymm_iff, le_iff_index_le ha hb, le_iff_index_le hb ha, ← le_antisymm_iff]

end SourceText

end Terse
