import Mathlib.Tactic.Order
import Terse.Edit.Items
import Terse.Proofs.Edit.Place
import Terse.Proofs.Text.Line

/-!
# Fixes that fit

A fix of a node fits when it changes something, changes nothing outside the node, and its edits
stay apart from each other. The edits of a fix mostly stand in a line; the ones that take items
out of a sequence do so for any choice of items.
-/

namespace Terse

variable {place : Location → Prop}

/-- The range lies in another one, and its ends are places of the text, in order. -/
structure Range.Fits (place : Location → Prop) (r whole : Range) : Prop where
  le : r.start ≤ r.stop
  start_le : whole.start ≤ r.start
  le_stop : r.stop ≤ whole.stop
  start : place r.start
  stop : place r.stop

/-- The edits change something, nothing outside the range, and stay apart. -/
structure FixFits (place : Location → Prop) (whole : Range) (es : List Edit) : Prop where
  ne_nil : es ≠ []
  fits : ∀ e ∈ es, e.range.Fits place whole
  apart : es.Pairwise fun a b => Apart a.range.span b.range.span

namespace Range

theorem Proper.fits {whole r : Range} (h : r.Proper place) (hstart : whole.start ≤ r.start)
    (hstop : r.stop ≤ whole.stop) : r.Fits place whole :=
  ⟨h.le, hstart, hstop, h.start, h.stop⟩

theorem Proper.fits_self {r : Range} (h : r.Proper place) : r.Fits place r := h.fits le_rfl le_rfl

theorem Fits.mono {r whole whole' : Range} (h : r.Fits place whole)
    (hstart : whole'.start ≤ whole.start) (hstop : whole.stop ≤ whole'.stop) :
    r.Fits place whole' :=
  ⟨h.le, hstart.trans h.start_le, h.le_stop.trans hstop, h.start, h.stop⟩

/-- The range between two places of a range. -/
theorem fits_between {whole : Range} {a b : Location} (hle : a ≤ b) (hstart : whole.start ≤ a)
    (hstop : b ≤ whole.stop) (ha : place a) (hb : place b) : Range.Fits place ⟨a, b⟩ whole :=
  ⟨hle, hstart, hstop, ha, hb⟩

end Range

/-! ## Few edits -/

theorem fixFits_single {whole : Range} {e : Edit} (h : e.range.Fits place whole) :
    FixFits place whole [e] :=
  ⟨by simp, by simpa using h, List.pairwise_singleton _ _⟩

/-- The order in which a fix lists its edits does not matter. -/
theorem FixFits.perm {whole : Range} {es es' : List Edit} (h : FixFits place whole es)
    (hperm : es.Perm es') : FixFits place whole es' := by
  refine ⟨?_, fun e he => h.fits e (hperm.mem_iff.mpr he), ?_⟩
  · rintro rfl
    exact h.ne_nil hperm.eq_nil
  · exact (hperm.pairwise_iff apart_symm).mp h.apart

/-- One more edit before the others, which are not empty where it is. -/
theorem fixFits_cons {whole : Range} {a : Edit} {es : List Edit} (ha : a.range.Fits place whole)
    (hes : FixFits place whole es)
    (h : ∀ b ∈ es, a.range.stop ≤ b.range.start ∧ a.range.start < b.range.stop) :
    FixFits place whole (a :: es) :=
  ⟨by simp, List.forall_mem_cons.mpr ⟨ha, hes.fits⟩,
    List.pairwise_cons.mpr ⟨fun b hb => apart_of_le (h b hb).1 (h b hb).2, hes.apart⟩⟩

/-- Two edits, one behind the other, that are not both empty. -/
theorem fixFits_pair {whole : Range} {a b : Edit} (ha : a.range.Fits place whole)
    (hb : b.range.Fits place whole) (h : a.range.stop ≤ b.range.start)
    (hne : a.range.start < b.range.stop) : FixFits place whole [a, b] := by
  refine fixFits_cons ha (fixFits_single hb) ?_
  intro e he
  rcases List.mem_singleton.mp he with rfl
  exact ⟨h, hne⟩

/-- Edits that change something each and follow one another stay apart. -/
theorem pairwise_apart_of_between {start stop : Location} {es : List Edit}
    (h : Between Edit.range (fun e => e.range.Proper place) start es stop) :
    es.Pairwise fun a b => Apart a.range.span b.range.span := by
  refine (h.pairwise fun _ h => h.le).imp_of_mem ?_
  intro a b ha hb hab
  exact apart_of_le hab ((h.ok_of_mem ha).lt.trans_le (hab.trans (h.ok_of_mem hb).le))

/-- Edits that change something each and follow one another. -/
theorem fixFits_of_between {whole : Range} {es : List Edit} (hne : es ≠ [])
    (h : Between Edit.range (fun e => e.range.Proper place) whole.start es whole.stop) :
    FixFits place whole es := by
  have hok : ∀ e : Edit, e.range.Proper place → e.range.start ≤ e.range.stop := fun _ h => h.le
  refine ⟨hne, ?_, pairwise_apart_of_between h⟩
  intro e he
  exact (h.ok_of_mem he).fits (h.start_le hok he) (h.le_stop hok he)

/-! ## Taking items out of a sequence -/

/-- What the items read so far leave behind: everything up to `free` may still be changed, and
`last` is where the last item ended. -/
structure ItemsSoFar (place : Location → Prop) (free last : Location) (kept : Option Range)
    (run : Option (Range × Range)) : Prop where
  free_le : free ≤ last
  kept_ok : ∀ k, kept = some k → free ≤ k.stop ∧ k.stop ≤ last ∧ place k.stop
  run_ok : ∀ a b, run = some (a, b) →
    free ≤ a.start ∧ a.start < b.stop ∧ b.stop ≤ last ∧ place a.start ∧ place b.stop
  kept_run : ∀ k a b, kept = some k → run = some (a, b) → k.stop ≤ a.start

namespace ItemsSoFar

variable {free last : Location} {kept : Option Range} {run : Option (Range × Range)} {r : Range}

/-- A flagged item starts a run, or makes it longer. -/
theorem flagged (hso : ItemsSoFar place free last kept run) (hr : r.Proper place)
    (hlast : last ≤ r.start) :
    ItemsSoFar place free r.stop kept (some ((run.map (·.1)).getD r, r)) := by
  have hle := hr.le
  have hlt := hr.lt
  have hfree := hso.free_le
  refine ⟨by order, ?_, ?_, ?_⟩
  · intro k hk
    rcases hso.kept_ok k hk with ⟨h1, h2, h3⟩
    exact ⟨h1, by order, h3⟩
  · rintro a b hab
    simp only [Option.some.injEq, Prod.mk.injEq] at hab
    rcases hab with ⟨rfl, rfl⟩
    -- an open run is made longer, and where none is open this item starts one
    cases run with
    | none => exact ⟨hfree.trans hlast, hr.lt, le_rfl, hr.start, hr.stop⟩
    | some pair =>
      rcases hso.run_ok pair.1 pair.2 rfl with ⟨h1, h2, h3, h4, -⟩
      exact ⟨h1, show pair.1.start < r.stop by order, le_rfl, h4, hr.stop⟩
  · rintro k a b hk hab
    simp only [Option.some.injEq, Prod.mk.injEq] at hab
    rcases hab with ⟨rfl, rfl⟩
    rcases hso.kept_ok k hk with ⟨-, h2, -⟩
    cases run with
    | none => exact h2.trans hlast
    | some pair => exact hso.kept_run k pair.1 pair.2 hk rfl

/-- An item that is kept leaves no run open. -/
theorem of_kept (hr : r.Proper place) (hfree : free ≤ r.stop) :
    ItemsSoFar place free r.stop (some r) none := by
  refine ⟨hfree, ?_, by simp, by simp⟩
  rintro k ⟨⟩
  exact ⟨hfree, le_rfl, hr.stop⟩

end ItemsSoFar

section

variable {items : List (Range × Bool)} {free last stop : Location} {kept : Option Range}
  {run : Option (Range × Range)} (hso : ItemsSoFar place free last kept run)
  (h : Between Prod.fst (fun i : Range × Bool => i.1.Proper place) last items stop)
include hso h

theorem removeItemsFrom_between :
    Between Edit.range (fun e => e.range.Proper place) free (removeItemsFrom kept run items)
      stop := by
  induction items generalizing free last kept run with
  | nil =>
    rw [between_nil] at h
    unfold removeItemsFrom
    split
    · rename_i k a b
      rcases hso.kept_ok k rfl with ⟨hfree, -, hk⟩
      rcases hso.run_ok a b rfl with ⟨-, hlt, hb, -, hplace⟩
      have hka := hso.kept_run k a b rfl rfl
      rw [between_cons, between_nil]
      exact ⟨hfree, ⟨hka.trans_lt hlt, hk, hplace⟩, hb.trans h⟩
    · rw [between_nil]
      exact hso.free_le.trans h
  | cons item items ih =>
    rcases item with ⟨r, flagged⟩
    rcases between_cons.mp h with ⟨hlast, hr, hitems⟩
    dsimp only at hlast hr hitems
    have hle := hr.le
    have hfree := hso.free_le
    cases flagged with
    | true =>
      rw [removeItemsFrom]
      exact ih (hso.flagged hr hlast) hitems
    | false =>
      unfold removeItemsFrom
      split
      · -- the run ends: it goes with what stands before this item
        rename_i a b
        rcases hso.run_ok a b rfl with ⟨h1, h2, h3, h4, -⟩
        rw [between_cons]
        exact ⟨h1, ⟨show a.start < r.start by order, h4, hr.start⟩, ih (.of_kept hr hle) hitems⟩
      · exact ih (.of_kept hr (show free ≤ r.stop by order)) hitems

/-- No edit changes anything of an item that is kept. -/
theorem removeItemsFrom_apart {r : Range} (hr : (r, false) ∈ items) :
    ∀ edit ∈ removeItemsFrom kept run items,
      edit.range.stop ≤ r.start ∨ r.stop ≤ edit.range.start := by
  have hok : ∀ e : Edit, e.range.Proper place → e.range.start ≤ e.range.stop := fun _ h => h.le
  have hitemOk : ∀ i : Range × Bool, i.1.Proper place → i.1.start ≤ i.1.stop := fun _ h => h.le
  induction items generalizing free last kept run with
  | nil => cases hr
  | cons item items ih =>
    rcases item with ⟨q, flagged⟩
    rcases between_cons.mp h with ⟨hlast, hq, hitems⟩
    dsimp only at hlast hq hitems
    have hle := hq.le
    have hfree := hso.free_le
    cases flagged with
    | true =>
      rw [removeItemsFrom]
      have hmem : (r, false) ∈ items := by simpa using hr
      exact ih (hso.flagged hq hlast) hitems hmem
    | false =>
      -- the edits for the items behind the kept one start behind it
      have hbehind : ∀ edit ∈ removeItemsFrom (some q) none items,
          q.stop ≤ edit.range.start := fun edit hedit =>
        (removeItemsFrom_between (.of_kept hq le_rfl) hitems).start_le hok hedit
      have hrest : ∀ edit ∈ removeItemsFrom (some q) none items,
          edit.range.stop ≤ r.start ∨ r.stop ≤ edit.range.start := by
        rcases List.mem_cons.mp hr with heq | hmem
        · cases heq
          exact fun edit hedit => .inr (hbehind edit hedit)
        · exact ih (.of_kept hq le_rfl) hitems hmem
      unfold removeItemsFrom
      split
      · have hstart : q.start ≤ r.start := h.head_start_le hitemOk hr
        exact List.forall_mem_cons.mpr ⟨.inl hstart, hrest⟩
      · exact hrest

/-- An edit takes out each flagged item, and the run before the items; one item stays at least. -/
theorem removeItemsFrom_covers (hkept : kept.isSome ∨ ∃ i ∈ items, i.2 = false) {a b : Range}
    (hab : (b, true) ∈ items ∧ a = b ∨ run = some (a, b)) :
    ∃ edit ∈ removeItemsFrom kept run items,
      edit.range.start ≤ a.start ∧ b.stop ≤ edit.range.stop := by
  induction items generalizing free last kept run a b with
  | nil =>
    rcases hab with ⟨hmem, -⟩ | rfl
    · cases hmem
    · rcases hkept with hkept | ⟨i, hi, -⟩
      · rcases Option.isSome_iff_exists.mp hkept with ⟨k, rfl⟩
        rw [removeItemsFrom]
        exact ⟨_, List.mem_singleton_self _, hso.kept_run k a b rfl rfl, le_rfl⟩
      · cases hi
  | cons item items ih =>
    rcases item with ⟨q, flagged⟩
    rcases between_cons.mp h with ⟨hlast, hq, hitems⟩
    dsimp only at hlast hq hitems
    have hle := hq.le
    have hfree := hso.free_le
    cases flagged with
    | true =>
      rw [removeItemsFrom]
      -- a flagged item joins the run, and whatever takes out the run takes out the item with it
      have hgrown := hso.flagged hq hlast
      have hkept' : kept.isSome ∨ ∃ i ∈ items, i.2 = false := by simpa using hkept
      rcases hab with ⟨hmem, rfl⟩ | rfl
      · rcases List.mem_cons.mp hmem with heq | hmem
        · cases heq
          rcases ih hgrown hitems hkept' (.inr rfl) with ⟨edit, hedit, hstart, hstop⟩
          refine ⟨edit, hedit, hstart.trans ?_, hstop⟩
          cases run with
          | none => exact le_rfl
          | some pair =>
            have hrun := hso.run_ok pair.1 pair.2 rfl
            exact show pair.1.start ≤ a.start by order
        · exact ih hgrown hitems hkept' (.inl ⟨hmem, rfl⟩)
      · have hrun := hso.run_ok a b rfl
        rcases ih hgrown hitems hkept' (.inr rfl) with ⟨edit, hedit, hstart, hstop⟩
        exact ⟨edit, hedit, hstart, by order⟩
    | false =>
      -- an item that stays ends the run, which is taken out up to the start of the item
      unfold removeItemsFrom
      rcases hab with ⟨hmem, rfl⟩ | rfl
      · have hmem : (a, true) ∈ items := by simpa using hmem
        rcases ih (.of_kept hq le_rfl) hitems (.inl rfl) (.inl ⟨hmem, rfl⟩) with
          ⟨edit, hedit, hcovers⟩
        split
        · exact ⟨edit, List.mem_cons_of_mem _ hedit, hcovers⟩
        · exact ⟨edit, hedit, hcovers⟩
      · have hrun := hso.run_ok a b rfl
        exact ⟨_, List.mem_cons_self, le_rfl, show b.stop ≤ q.start by order⟩

end

theorem removeItemsFrom_ne_nil {items : List (Range × Bool)} {kept : Option Range}
    {run : Option (Range × Range)} (hrun : run.isSome ∨ ∃ i ∈ items, i.2 = true)
    (hkept : kept.isSome ∨ ∃ i ∈ items, i.2 = false) : removeItemsFrom kept run items ≠ [] := by
  induction items generalizing kept run with
  | nil =>
    simp only [List.not_mem_nil, false_and, exists_false, or_false,
      Option.isSome_iff_exists] at hrun hkept
    rcases hrun with ⟨⟨a, b⟩, rfl⟩
    rcases hkept with ⟨k, rfl⟩
    simp [removeItemsFrom]
  | cons item items ih =>
    rcases item with ⟨r, flagged⟩
    cases flagged with
    | true =>
      -- the item opens a run or joins the open one, so from here on there is a run
      rw [removeItemsFrom]
      exact ih (.inl rfl) (by simpa using hkept)
    | false =>
      -- a kept item closes the run before it, and closing a run is an edit
      unfold removeItemsFrom
      split
      · simp
      · exact ih (by simpa using hrun) (.inl rfl)

/-- The edits that take items out of a sequence stand where it does. -/
theorem removeItems_between {items : List (Range × Bool)} {start stop : Location}
    (h : Between Prod.fst (fun i : Range × Bool => i.1.Proper place) start items stop) :
    Between Edit.range (fun e => e.range.Proper place) start (removeItems items) stop :=
  removeItemsFrom_between ⟨le_rfl, by simp, by simp, by simp⟩ h

/-- Taking out some items, but not all, of a sequence that lies in a range. -/
theorem removeItems_fits {items : List (Range × Bool)} {whole : Range}
    (h : Between Prod.fst (fun i : Range × Bool => i.1.Proper place) whole.start items whole.stop)
    (hflagged : ∃ i ∈ items, i.2 = true) (hkept : ∃ i ∈ items, i.2 = false) :
    FixFits place whole (removeItems items) :=
  fixFits_of_between (removeItemsFrom_ne_nil (.inr hflagged) (.inr hkept)) (removeItems_between h)

end Terse
