import Mathlib.Tactic.Order
import Terse.Proofs.Edit.Rewriting

/-!
# What is left of a sequence

Taking flagged items out of a sequence leaves the texts of the others, each with the gap that stood
behind it, except for the gap behind the last one that stays. A run of flagged items may stand at
the start, inside or at the end of the sequence; the edits for it differ, and what is left does
not.
-/

namespace Terse

open SourceText

/-- The things that are not flagged. -/
def unflagged {α : Type} (xs : List α) (flags : List Bool) : List α :=
  ((xs.zip flags).filter fun x => !x.2).map Prod.fst

@[simp] theorem unflagged_nil {α : Type} (flags : List Bool) : unflagged ([] : List α) flags = [] :=
  rfl

@[simp] theorem unflagged_cons_true {α : Type} (x : α) (xs : List α) (flags : List Bool) :
    unflagged (x :: xs) (true :: flags) = unflagged xs flags := by
  simp [unflagged]

@[simp] theorem unflagged_cons_false {α : Type} (x : α) (xs : List α) (flags : List Bool) :
    unflagged (x :: xs) (false :: flags) = x :: unflagged xs flags := by
  simp [unflagged]

namespace SourceText

/-- The texts of the items that stay, each with what stands between it and the next item of the
whole sequence, whether that one stays or not. -/
def staying (s : SourceText) (items : List (Range × Bool)) : List (String × String) :=
  unflagged (s.withGaps "" (items.map Prod.fst)) (items.map Prod.snd)

variable {s : SourceText}

@[simp] theorem staying_nil : s.staying [] = [] := rfl

@[simp] theorem staying_cons_true (r : Range) (items : List (Range × Bool)) :
    s.staying ((r, true) :: items) = s.staying items := by
  simp [staying, withGaps]

@[simp] theorem staying_cons_false (r : Range) (items : List (Range × Bool)) :
    s.staying ((r, false) :: items) =
      (s.extract r, s.gapBehind "" r (items.map Prod.fst)) :: s.staying items := by
  simp [staying, withGaps]

variable {items : List (Range × Bool)} {here stop : Location} {r k a b : Range}

/-- The text up to an item that is kept stays as it is. -/
theorem rewritten_up_to_kept (hhere : s.HasPlace here) (hr : r.Proper s.HasPlace)
    (hle : here ≤ r.start)
    (hline : InLine Prod.fst (fun i : Range × Bool => i.1.Proper s.HasPlace) r.stop items stop) :
    s.rewritten here (removeItemsFrom (some r) none items) =
      s.extract ⟨here, r.start⟩ ++
        (s.extract r ++ s.rewritten r.stop (removeItemsFrom (some r) none items)) := by
  have hedits := removeItemsFrom_between (.of_kept hr le_rfl) hline.between
  rw [rewritten_from hhere hr.stop (hle.trans hr.le) (admitted_of_proper_line hedits),
    ← extract_append hhere hr.start hr.stop hle hr.le, String.append_assoc]

/-- Behind an item that is kept: if no run has begun, what stands between the item and the next one
stays with it; if a run has begun, what stands before the run does. -/
theorem rewritten_behind_kept (items : List (Range × Bool)) :
    (∀ {k stop}, k.Proper s.HasPlace →
      InLine Prod.fst (fun i : Range × Bool => i.1.Proper s.HasPlace) k.stop items stop →
      s.extract k ++ s.rewritten k.stop (removeItemsFrom (some k) none items) =
        joinGaps ((s.extract k, s.gapBehind "" k (items.map Prod.fst)) :: s.staying items) ++
          s.behind stop) ∧
    (∀ {k a b stop}, k.Proper s.HasPlace → s.HasPlace a.start → k.stop ≤ a.start →
      a.start ≤ b.stop →
      InLine Prod.fst (fun i : Range × Bool => i.1.Proper s.HasPlace) b.stop items stop →
      s.extract k ++ s.rewritten k.stop (removeItemsFrom (some k) (some (a, b)) items) =
        joinGaps ((s.extract k, s.extract ⟨k.stop, a.start⟩) :: s.staying items) ++
          s.behind stop) := by
  induction items with
  | nil =>
    constructor
    · intro k stop _ hline
      obtain rfl : k.stop = stop := hline
      rfl
    · intro k a b stop hk _ _ _ hline
      obtain rfl : b.stop = stop := hline
      -- the run reaches the end, and goes with what stands before it
      simp [removeItemsFrom, rewritten, joinGaps, Edit.range, Edit.text, extract_point hk.stop]
  | cons item items ih =>
    rcases item with ⟨r, flagged⟩
    constructor
    · intro k stop hk hline
      obtain ⟨hgap, hr, hrest⟩ := inLine_cons.mp hline
      cases flagged with
      | true =>
        rw [removeItemsFrom, staying_cons_true]
        exact ih.2 hk hr.start hgap hr.le hrest
      | false =>
        rw [removeItemsFrom, rewritten_up_to_kept hk.stop hr hgap hrest, ih.1 hr hrest,
          staying_cons_false, joinGaps_cons (s.extract k) _ (List.cons_ne_nil _ _)]
        simp only [String.append_assoc]
        rfl
    · intro k a b stop hk ha hka hab hline
      obtain ⟨hgap, hr, hrest⟩ := inLine_cons.mp hline
      have har : a.start ≤ r.start := hab.trans hgap
      cases flagged with
      | true =>
        rw [removeItemsFrom, staying_cons_true]
        exact ih.2 hk ha hka (har.trans hr.le) hrest
      | false =>
        have hkept := rewritten_up_to_kept hr.start hr le_rfl hrest
        rw [extract_point hr.start, String.empty_append, ih.1 hr hrest] at hkept
        rw [removeItemsFrom, rewritten, staying_cons_false,
          joinGaps_cons (s.extract k) _ (List.cons_ne_nil _ _)]
        simp only [Edit.range, Edit.text, String.append_empty, hkept, String.append_assoc]

/-- A run before all items that are kept goes with what stands between it and the first of them. -/
theorem rewritten_leading_run (ha : s.HasPlace a.start) (hab : a.start ≤ b.stop)
    (hline : InLine Prod.fst (fun i : Range × Bool => i.1.Proper s.HasPlace) b.stop items stop)
    (hkept : ∃ i ∈ items, i.2 = false) :
    s.rewritten a.start (removeItemsFrom none (some (a, b)) items) =
      joinGaps (s.staying items) ++ s.behind stop := by
  induction items generalizing b with
  | nil => simp at hkept
  | cons item items ih =>
    rcases item with ⟨r, flagged⟩
    obtain ⟨hgap, hr, hrest⟩ := inLine_cons.mp hline
    have har : a.start ≤ r.start := hab.trans hgap
    cases flagged with
    | true =>
      rw [removeItemsFrom, staying_cons_true]
      exact ih (har.trans hr.le) hrest (by simpa using hkept)
    | false =>
      -- the first item that stays ends the run, and the text up to that item is removed
      have hbehind := (rewritten_behind_kept items).1 hr hrest
      rw [removeItemsFrom, rewritten, staying_cons_false, ← hbehind]
      simp only [Edit.range, Edit.text, String.append_empty, extract_point ha,
        String.empty_append, rewritten_up_to_kept hr.start hr le_rfl hrest, extract_point hr.start]

/-- Taking out flagged items, but not all, leaves the others with the gaps behind them. -/
theorem apply_removeItems
    (hline : InLine Prod.fst (fun i : Range × Bool => i.1.Proper s.HasPlace) here items stop)
    (hkept : ∃ i ∈ items, i.2 = false) (hhere : s.HasPlace here)
    (hfirst : items.head?.map (·.1.start) = some here) :
    (s.apply (removeItems items)).map SourceText.text =
      .ok (s.before here ++ joinGaps (s.staying items) ++ s.behind stop) := by
  have hedits := removeItems_between hline.between
  have hall : s.rewritten here (removeItems items) =
      joinGaps (s.staying items) ++ s.behind stop := by
    cases items with
    | nil => simp at hkept
    | cons item items =>
      rcases item with ⟨r, flagged⟩
      obtain rfl : r.start = here := by simpa using hfirst
      obtain ⟨-, hr, hrest⟩ := inLine_cons.mp hline
      cases flagged with
      | true =>
        rw [removeItems, removeItemsFrom, staying_cons_true]
        exact rewritten_leading_run hr.start hr.le hrest (by simpa using hkept)
      | false =>
        rw [removeItems, removeItemsFrom, rewritten_up_to_kept hr.start hr le_rfl hrest,
          extract_point hr.start, String.empty_append, staying_cons_false]
        exact (rewritten_behind_kept items).1 hr hrest
  -- the edits start at `here` or later, so the text before `here` is copied as it stands
  have horigin := hedits.mono hhere.origin_le le_rfl
  rw [apply_of_proper_line horigin, String.append_assoc, ← hall]
  exact congrArg Except.ok
    (rewritten_from s.hasPlace_origin hhere hhere.origin_le (admitted_of_proper_line hedits))

end SourceText

/-- Taking flagged items out of a sequence in a text succeeds when at least one item stays. The text
is what stands before the first item, the texts of all items with the gaps behind them, and what
stands behind the last one; what is left is the same without the flagged items and without the gap
behind the last item that stays. -/
theorem applyEdits_removeItems (text : String) {ranges : List Range} {flags : List Bool}
    {first last : Range} (hlength : flags.length = ranges.length)
    (hproper : ∀ r ∈ ranges, r.Proper (ofString text).HasPlace)
    (horder : ranges.Pairwise fun a b => a.stop ≤ b.start) (hkept : false ∈ flags)
    (hfirst : ranges.head? = some first) (hlast : ranges.getLast? = some last) :
    let s := ofString text
    s.before first.start ++ joinGaps (s.withGaps "" ranges) ++ s.behind last.stop = text ∧
      applyEdits text (removeItems (ranges.zip flags)) =
        .ok (s.before first.start ++ joinGaps (unflagged (s.withGaps "" ranges) flags) ++
          s.behind last.stop) := by
  intro s
  have hall : InLine id (Range.Proper s.HasPlace) first.start ranges last.stop :=
    inLine_of_pairwise hproper horder hfirst hlast
  have hranges : (ranges.zip flags).map Prod.fst = ranges := List.map_fst_zip hlength.ge
  have hflags : (ranges.zip flags).map Prod.snd = flags := List.map_snd_zip hlength.le
  have hfirstProper := hproper first (List.mem_of_mem_head? hfirst)
  have hlastProper := hproper last (List.mem_of_getLast? hlast)
  constructor
  · have hle : first.start ≤ last.stop := hall.le fun _ h => h.le
    rw [joinGaps_withGaps "" hall.between hfirst hlast,
      before_append_extract hfirstProper.start hlastProper.stop hle, text_ofString]
  · have hexists : ∃ i ∈ ranges.zip flags, i.2 = false := by
      rw [← hflags, List.mem_map] at hkept
      exact hkept
    have hhead : (ranges.zip flags).head?.map (·.1.start) = some first.start := by
      have hmap : ((ranges.zip flags).map Prod.fst).head? = some first := by rw [hranges, hfirst]
      rw [List.head?_map, Option.map_eq_some_iff] at hmap
      obtain ⟨item, hitem, rfl⟩ := hmap
      rw [hitem]
      rfl
    have hline : InLine Prod.fst (fun i : Range × Bool => i.1.Proper s.HasPlace) first.start
        (ranges.zip flags) last.stop := by
      rw [← hranges, inLine_map] at hall
      exact hall
    have happly := apply_removeItems hline hexists hfirstProper.start hhead
    rwa [staying, hranges, hflags] at happly

/-- Two items inside and the one at the end go, each run with one of the commas beside it. -/
theorem applyEdits_removeItems_runs :
    applyEdits "[ é, n, n,y\n, n ]" (removeItems
      ([⟨⟨1, 3⟩, ⟨1, 4⟩⟩, ⟨⟨1, 6⟩, ⟨1, 7⟩⟩, ⟨⟨1, 9⟩, ⟨1, 10⟩⟩, ⟨⟨1, 11⟩, ⟨1, 12⟩⟩,
        ⟨⟨2, 3⟩, ⟨2, 4⟩⟩].zip [false, true, true, false, true])) = .ok "[ é, y ]" := by
  have happly := (applyEdits_removeItems "[ é, n, n,y\n, n ]"
    (show [false, true, true, false, true].length = [(⟨⟨1, 3⟩, ⟨1, 4⟩⟩ : Range),
      ⟨⟨1, 6⟩, ⟨1, 7⟩⟩, ⟨⟨1, 9⟩, ⟨1, 10⟩⟩, ⟨⟨1, 11⟩, ⟨1, 12⟩⟩, ⟨⟨2, 3⟩, ⟨2, 4⟩⟩].length from rfl)
    (by
      simp only [List.forall_mem_cons, List.not_mem_nil, false_implies, implies_true, and_true]
      exact ⟨⟨by decide, by decide, by decide⟩, ⟨by decide, by decide, by decide⟩,
        ⟨by decide, by decide, by decide⟩, ⟨by decide, by decide, by decide⟩,
        ⟨by decide, by decide, by decide⟩⟩)
    (by decide) (by decide) rfl rfl).2
  exact happly.trans (congrArg Except.ok (by decide +kernel))

end Terse
