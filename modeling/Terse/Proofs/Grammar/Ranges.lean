import Terse.Proofs.Grammar.ModuleStanding

/-!
# Ranges of what is read

Every node of a tree that is read from a text has a range with at least one character in it, whose
ends are places of the text. The ranges of its parts lie in it and follow one another.
-/

namespace Terse

open Item (part)

variable {place : Location → Prop}

namespace Node

/-! ## Parts and their tokens -/

/-- A part is written with some of the tokens of the whole. -/
theorem StandsIn.of_spelled {items : List Item} {ts : List Token} {p : Node}
    (h : Spelled Sits items ts) (hp : part p ∈ items) : p.StandsIn ts := by
  rcases List.append_of_mem hp with ⟨before, after, rfl⟩
  rcases spelled_append.mp h with ⟨own, rest, rfl, -, hrest⟩
  rcases spelled_part.mp hrest with ⟨tokens, rest, rfl, hstands, -⟩
  exact ⟨tokens, ⟨own, rest, by simp⟩, hstands⟩

theorem StandsIn.of_under {root n : Node} {ts : List Token} (h : root.StandsIn ts)
    (hn : Under root n) : n.StandsIn ts := by
  induction hn with
  | root => exact h
  | part _ hp ih =>
    rcases ih with ⟨own, hown, hstands⟩
    exact (StandsIn.of_spelled hstands.2 (mem_parts.mp hp)).mono hown

/-- A node with a part is not a field. -/
theorem Stands.range_eq_of_part {n p : Node} {ts : List Token} (h : n.Stands ts)
    (hp : part p ∈ n.items) : n.range = extent ts := by
  refine h.range_eq ?_
  rintro f rfl
  simp [items] at hp

theorem Stands.contains_part {n p : Node} {ts : List Token} (h : n.Stands ts)
    (hts : Tidy place ts) (hp : p ∈ n.parts) : n.range.contains p.range = true := by
  rw [mem_parts] at hp
  rcases StandsIn.of_spelled h.2 hp with ⟨own, hown, hstands⟩
  rcases hstands.range_within (hts.of_isInfix hown) with ⟨-, hstart, hstop⟩
  rcases hts.extent_within hown.subset hstands.ne_nil with ⟨hstart', hstop'⟩
  rw [Range.contains_iff, h.range_eq_of_part hp]
  exact ⟨hstart'.trans hstart, hstop.trans hstop'⟩

/-- The parts among items that are written with tokens stand apart. -/
theorem parts_pairwise {items : List Item} {ts : List Token} (h : Spelled Sits items ts)
    (hts : Tidy place ts) :
    (items.filterMap Item.part?).Pairwise fun p q => p.range.stop ≤ q.range.start := by
  induction items generalizing ts with
  | nil => exact .nil
  | cons i items ih =>
    cases i with
    | mark m =>
      cases m with
      | must k =>
        rcases spelled_token.mp h with ⟨t, rest, rfl, -, hrest⟩
        exact ih hrest hts.tail
      | may k =>
        cases h with
        | absent hrest => exact ih hrest hts
        | present _ hrest => exact ih hrest hts.tail
    | part p =>
      rcases spelled_part.mp h with ⟨own, rest, rfl, hp, hrest⟩
      have hlater := ih hrest hts.right
      refine List.pairwise_cons.mpr ⟨?_, hlater⟩
      intro q hq
      -- the later part is written with tokens behind those of the first one
      rcases List.mem_filterMap.mp hq with ⟨j, hj, hsome⟩
      cases j with
      | mark m => cases hsome
      | part q' =>
        cases hsome
        rcases StandsIn.of_spelled hrest hj with ⟨tokens, htokens, hstands⟩
        rcases Stands.range_within hp hts.left with ⟨-, -, hstop⟩
        rcases hstands.range_within (hts.right.of_isInfix htokens) with ⟨-, hstart, -⟩
        have hgap := hts.extent_le hp.ne_nil htokens.subset hstands.ne_nil
        exact hstop.trans (hgap.trans hstart)

end Node

theorem SourceText.hasPlace_iff_offset? {s : SourceText} {l : Location} :
    s.HasPlace l ↔ (s.offset? l).isSome := by
  simp [HasPlace, offset?]

/-- Every node of a tree that is read from a text has a range that is not empty and has its ends in
the text. The ranges of its parts lie in it, and each part ends before the next one starts. -/
theorem ReadFrom.ranges {text : String} {root n : Node} (h : ReadFrom text root)
    (hn : Node.Under root n) :
    n.range.start < n.range.stop ∧
      ((SourceText.ofString text).offset? n.range.start).isSome ∧
      ((SourceText.ofString text).offset? n.range.stop).isSome ∧
      (∀ p ∈ n.parts, n.range.contains p.range = true) ∧
      n.parts.Pairwise fun p q => p.range.stop ≤ q.range.start := by
  rcases h.standsIn with ⟨ts, hscan, hroot⟩
  rcases hroot.of_under hn with ⟨own, hown, hstands⟩
  have htidy := (Token.tidy_scan hscan).of_isInfix hown
  have hproper := (hstands.range_within htidy).1
  exact ⟨hproper.lt, SourceText.hasPlace_iff_offset?.mp hproper.start,
    SourceText.hasPlace_iff_offset?.mp hproper.stop,
    fun p hp => hstands.contains_part htidy hp, Node.parts_pairwise hstands.2 htidy⟩

/-- A record in parentheses and the field that is taken of it stand apart. -/
theorem ReadFrom.ranges_field : ∃ e, ReadFrom "(r).field" (.expr e) ∧
    (Node.expr e).parts.length = 2 ∧
      (Node.expr e).parts.Pairwise fun p q => p.range.stop ≤ q.range.start := by
  have hread : (Expr.parse "(r).field").toOption.any
      (fun e => (Node.expr e).parts.length == 2) = true := by decide +kernel
  rcases exists_ok_of_any hread with ⟨e, hparse, hparts⟩
  have hroot : ReadFrom "(r).field" (.expr e) := .expr hparse
  exact ⟨e, hroot, eq_of_beq hparts, (hroot.ranges .root).2.2.2.2⟩

end Terse
