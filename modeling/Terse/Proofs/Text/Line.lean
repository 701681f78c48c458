import Mathlib.Tactic.Order
import Terse.Proofs.Text.Order

/-!
# Things that follow one another

Tokens, expressions, patterns and fields stand in a text one after the other. What follows one
another here starts no earlier than the thing before it ends, and the line ends where its last
thing does.
-/

namespace Terse

/-- The range holds at least one character, and both its ends are places of the text. -/
structure Range.Proper (place : Location → Prop) (r : Range) : Prop where
  lt : r.start < r.stop
  start : place r.start
  stop : place r.stop

/-- A proper range is not inverted. -/
theorem Range.Proper.le {place : Location → Prop} {r : Range} (h : r.Proper place) :
    r.start ≤ r.stop := h.lt.le

/-- Two ranges in order span the range from the start of the first to the end of the second. -/
theorem Range.merge_of_le {a b : Range} (h : a.start ≤ b.start) (h' : a.stop ≤ b.stop) :
    a.merge b = ⟨a.start, b.stop⟩ := by
  unfold merge
  rw [min_eq_left h, max_eq_right h']

namespace Range.Proper

variable {place : Location → Prop} {a b : Range} (ha : a.Proper place) (hb : b.Proper place)
  (h : a.stop ≤ b.start)
include ha hb h

theorem merge_eq : a.merge b = ⟨a.start, b.stop⟩ := by
  have hlt := ha.lt
  have hlt' := hb.lt
  exact merge_of_le (by order) (by order)

/-- Two proper ranges, one behind the other, have a proper range around them. -/
theorem span : Range.Proper place ⟨a.start, b.stop⟩ := by
  have hlt := ha.lt
  have hlt' := hb.lt
  exact ⟨show a.start < b.stop by order, ha.start, hb.stop⟩

end Range.Proper

variable {α : Type} {range : α → Range} {ok : α → Prop}

/-- The things follow one another from a location on, each is as it should be, and the last one
ends at the second location. -/
def InLine (range : α → Range) (ok : α → Prop) (start : Location) : List α → Location → Prop
  | [], stop => start = stop
  | x :: xs, stop => start ≤ (range x).start ∧ ok x ∧ InLine range ok (range x).stop xs stop

@[simp] theorem inLine_nil {start stop : Location} :
    InLine range ok start [] stop ↔ start = stop := Iff.rfl

@[simp] theorem inLine_cons {start stop : Location} {x : α} {xs : List α} :
    InLine range ok start (x :: xs) stop ↔
      start ≤ (range x).start ∧ ok x ∧ InLine range ok (range x).stop xs stop := Iff.rfl

/-- Changed things are in line when the things themselves are, by their changed ranges. -/
theorem inLine_map {β : Type} {f : β → α} {start stop : Location} {xs : List β} :
    InLine range ok start (xs.map f) stop ↔
      InLine (fun x => range (f x)) (fun x => ok (f x)) start xs stop := by
  induction xs generalizing start with
  | nil => rfl
  | cons x xs ih => simp only [List.map_cons, inLine_cons, ih]

/-- Each thing in a line is as it should be. -/
theorem InLine.ok_of_mem {start stop : Location} {xs : List α} (h : InLine range ok start xs stop)
    {x : α} (hx : x ∈ xs) : ok x := by
  induction xs generalizing start with
  | nil => cases hx
  | cons y xs ih =>
    rcases List.mem_cons.mp hx with rfl | hx
    · exact h.2.1
    · exact ih h.2.2 hx

section

variable (hok : ∀ x, ok x → (range x).start ≤ (range x).stop)
include hok

/-- A line does not end before it starts. -/
theorem InLine.le {start stop : Location} {xs : List α} (h : InLine range ok start xs stop) :
    start ≤ stop := by
  induction xs generalizing start with
  | nil => exact le_of_eq h
  | cons x xs ih => exact h.1.trans ((hok x h.2.1).trans (ih h.2.2))

/-- No thing in a line starts before the line. -/
theorem InLine.start_le {start stop : Location} {xs : List α} (h : InLine range ok start xs stop)
    {x : α} (hx : x ∈ xs) : start ≤ (range x).start := by
  induction xs generalizing start with
  | nil => cases hx
  | cons y xs ih =>
    rcases List.mem_cons.mp hx with rfl | hx
    · exact h.1
    · exact h.1.trans ((hok y h.2.1).trans (ih h.2.2 hx))

/-- No thing in a line stops behind the line. -/
theorem InLine.le_stop {start stop : Location} {xs : List α} (h : InLine range ok start xs stop)
    {x : α} (hx : x ∈ xs) : (range x).stop ≤ stop := by
  induction xs generalizing start with
  | nil => cases hx
  | cons y xs ih =>
    rcases List.mem_cons.mp hx with rfl | hx
    · exact InLine.le hok h.2.2
    · exact ih h.2.2 hx

/-- What stands earlier in the line ends before what stands later starts. -/
theorem InLine.pairwise {start stop : Location} {xs : List α}
    (h : InLine range ok start xs stop) :
    xs.Pairwise fun x y => (range x).stop ≤ (range y).start := by
  induction xs generalizing start with
  | nil => exact List.Pairwise.nil
  | cons x xs ih =>
    exact List.pairwise_cons.mpr ⟨fun y hy => InLine.start_le hok h.2.2 hy, ih h.2.2⟩

end

/-- Two lines that meet make one. -/
theorem InLine.append {start stop : Location} {xs ys : List α} :
    InLine range ok start (xs ++ ys) stop ↔
      ∃ middle, InLine range ok start xs middle ∧ InLine range ok middle ys stop := by
  induction xs generalizing start with
  | nil => simp
  | cons x xs ih =>
    simp only [List.cons_append, inLine_cons, ih]
    constructor
    · rintro ⟨h1, h2, middle, h3, h4⟩
      exact ⟨middle, ⟨h1, h2, h3⟩, h4⟩
    · rintro ⟨middle, ⟨h1, h2, h3⟩, h4⟩
      exact ⟨h1, h2, middle, h3, h4⟩

/-- Things of which each ends before all later ones start follow one another. -/
theorem inLine_of_pairwise {xs : List α} {first final : α} (hok : ∀ x ∈ xs, ok x)
    (horder : xs.Pairwise fun x y => (range x).stop ≤ (range y).start)
    (hfirst : xs.head? = some first) (hfinal : xs.getLast? = some final) :
    InLine range ok (range first).start xs (range final).stop := by
  induction xs generalizing first with
  | nil => cases hfirst
  | cons x xs ih =>
    obtain rfl : x = first := by simpa using hfirst
    obtain ⟨hlater, hrest⟩ := List.pairwise_cons.mp horder
    rw [List.forall_mem_cons] at hok
    refine inLine_cons.mpr ⟨le_rfl, hok.1, ?_⟩
    cases xs with
    | nil =>
      obtain rfl : x = final := by simpa using hfinal
      exact inLine_nil.mpr rfl
    | cons y xs =>
      rw [List.getLast?_cons_cons] at hfinal
      have hmore := inLine_cons.mp (ih hok.2 hrest rfl hfinal)
      exact inLine_cons.mpr ⟨hlater y List.mem_cons_self, hmore.2⟩

/-- The things follow one another between two locations. -/
def Between (range : α → Range) (ok : α → Prop) (start : Location) (xs : List α)
    (stop : Location) : Prop :=
  ∃ last, InLine range ok start xs last ∧ last ≤ stop

theorem between_nil {start stop : Location} : Between range ok start [] stop ↔ start ≤ stop := by
  simp [Between]

theorem between_cons {start stop : Location} {x : α} {xs : List α} :
    Between range ok start (x :: xs) stop ↔
      start ≤ (range x).start ∧ ok x ∧ Between range ok (range x).stop xs stop := by
  simp only [Between, inLine_cons]
  constructor
  · rintro ⟨last, ⟨h1, h2, h3⟩, h4⟩
    exact ⟨h1, h2, last, h3, h4⟩
  · rintro ⟨h1, h2, last, h3, h4⟩
    exact ⟨last, ⟨h1, h2, h3⟩, h4⟩

/-- Things in line stand between its ends. -/
theorem InLine.between {start stop : Location} {xs : List α} (h : InLine range ok start xs stop) :
    Between range ok start xs stop :=
  ⟨stop, h, le_rfl⟩

namespace Between

variable {start stop : Location} {xs ys : List α}

/-- Things between two locations are between any two around those. -/
theorem mono {start' stop' : Location} (h : Between range ok start xs stop)
    (hstart : start' ≤ start) (hstop : stop ≤ stop') : Between range ok start' xs stop' := by
  cases xs with
  | nil =>
    rw [between_nil] at *
    order
  | cons x xs =>
    rw [between_cons] at *
    rcases h with ⟨h1, h2, last, h3, h4⟩
    exact ⟨hstart.trans h1, h2, last, h3, h4.trans hstop⟩

/-- Things before a location and things behind it stand in one row. -/
theorem append {middle : Location} (h : Between range ok start xs middle)
    (h' : Between range ok middle ys stop) : Between range ok start (xs ++ ys) stop := by
  induction xs generalizing start with
  | nil =>
    rw [between_nil] at h
    exact h'.mono h le_rfl
  | cons x xs ih =>
    rw [between_cons] at h
    rw [List.cons_append, between_cons]
    exact ⟨h.1, h.2.1, ih h.2.2⟩

theorem of_append (h : Between range ok start (xs ++ ys) stop) :
    ∃ middle, Between range ok start xs middle ∧ Between range ok middle ys stop := by
  rcases h with ⟨last, hline, hle⟩
  rcases InLine.append.mp hline with ⟨middle, hxs, hys⟩
  exact ⟨middle, hxs.between, last, hys, hle⟩

/-- Things that stand inside other things follow one another like them. -/
theorem shrink {β : Type} {range' : β → Range} {ok' : β → Prop}
    (h : Between range ok start xs stop) (f : α → β)
    (hinside : ∀ x, ok x → (range x).start ≤ (range' (f x)).start ∧ ok' (f x) ∧
      (range' (f x)).stop ≤ (range x).stop) :
    Between range' ok' start (xs.map f) stop := by
  induction xs generalizing start with
  | nil =>
    rw [between_nil] at h
    exact between_nil.mpr h
  | cons x xs ih =>
    rcases between_cons.mp h with ⟨h1, h2, h3⟩
    rcases hinside x h2 with ⟨hstart, hok, hstop⟩
    rw [List.map_cons, between_cons]
    exact ⟨h1.trans hstart, hok, (ih h3).mono hstop le_rfl⟩

/-- Things that stand in other things' places follow one another like them. -/
theorem map {β : Type} {range' : β → Range} {ok' : β → Prop} (h : Between range ok start xs stop)
    (f : α → β) (hrange : ∀ x, ok x → range' (f x) = range x) (hok : ∀ x, ok x → ok' (f x)) :
    Between range' ok' start (xs.map f) stop := by
  refine h.shrink f fun x hx => ?_
  rw [hrange x hx]
  exact ⟨le_rfl, hok x hx, le_rfl⟩

theorem ok_of_mem (h : Between range ok start xs stop) {x : α} (hx : x ∈ xs) : ok x := by
  rcases h with ⟨last, hline, -⟩
  exact hline.ok_of_mem hx

variable (hok : ∀ x, ok x → (range x).start ≤ (range x).stop)
include hok

theorem le (h : Between range ok start xs stop) : start ≤ stop := by
  rcases h with ⟨last, hline, hle⟩
  exact (hline.le hok).trans hle

theorem start_le (h : Between range ok start xs stop) {x : α} (hx : x ∈ xs) :
    start ≤ (range x).start := by
  rcases h with ⟨last, hline, -⟩
  exact hline.start_le hok hx

theorem le_stop (h : Between range ok start xs stop) {x : α} (hx : x ∈ xs) :
    (range x).stop ≤ stop := by
  rcases h with ⟨last, hline, hle⟩
  exact (hline.le_stop hok hx).trans hle

/-- The first of the things starts no later than any of them. -/
theorem head_start_le {x y : α} (h : Between range ok start (x :: xs) stop) (hy : y ∈ x :: xs) :
    (range x).start ≤ (range y).start := by
  rcases between_cons.mp h with ⟨-, hrest⟩
  exact start_le hok (between_cons.mpr ⟨le_rfl, hrest⟩) hy

/-- Of two things in a row the first stops before the second starts. -/
theorem pairwise (h : Between range ok start xs stop) :
    xs.Pairwise fun x y => (range x).stop ≤ (range y).start := by
  rcases h with ⟨last, hline, -⟩
  exact hline.pairwise hok

end Between

/-- A line ends where its last thing stops. -/
theorem InLine.stop_getLast {start stop : Location} {xs : List α}
    (h : InLine range ok start xs stop) {x : α} (hx : xs.getLast? = some x) :
    (range x).stop = stop := by
  induction xs generalizing start with
  | nil => simp at hx
  | cons y xs ih =>
    cases xs with
    | nil =>
      obtain rfl : y = x := by simpa using hx
      exact h.2.2
    | cons z xs =>
      rw [List.getLast?_cons_cons] at hx
      exact ih h.2.2 hx

end Terse
