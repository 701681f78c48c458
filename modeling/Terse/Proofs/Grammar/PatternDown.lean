import Terse.Grammar.Pattern
import Terse.Proofs.Grammar.Down

/-!
# Patterns further down

The readers of patterns read the same further down. They call each other to a depth that the fuel
bounds, so this is shown of all of them together, by induction on the fuel.
-/

namespace Terse.Grammar

open Token (Kind)

variable {k : Nat}

@[simp] theorem startsPatternAtom_down (k : Nat) (ts : List Token) :
    startsPatternAtom (tokensDown k ts) = startsPatternAtom ts := by
  rw [startsPatternAtom, nextKind_down, startsPatternAtom]

/-- A number behind a minus sign moves down with the sign. -/
theorem negatedNumber_down (minus : Range) (ts : List Token) :
    negatedNumber (minus.down k) (tokensDown k ts) =
      moved k (Prod.map (Pattern.down k) (tokensDown k)) (negatedNumber minus ts) := by
  rcases ts with - | ⟨⟨kind, range, startsRow⟩, ts⟩
  · rfl
  · cases kind with
    | int | float => simp [negatedNumber, tokensDown_cons, Pattern.down]
    | _ => rfl

/-- The names behind a pattern move down with it. -/
theorem aliases_down (inner : Pattern) (fuel : Nat) (ts : List Token) :
    aliases (inner.down k) fuel (tokensDown k ts) =
      moved k (Prod.map (Pattern.down k) (tokensDown k)) (aliases inner fuel ts) := by
  induction fuel generalizing inner ts with
  | zero => exact refuse_down _ _ ts
  | succ fuel ih =>
    unfold aliases
    rcases ts with - | ⟨⟨kind, range, startsRow⟩, ts⟩
    · rfl
    · cases kind with
      | keyword word =>
        cases word with
        | asWord =>
          refine bind_moved (lowerName_down _ ts) ?_
          rintro ⟨name, ts⟩
          -- the pattern named so far moves as a whole, so it may be named again
          have hnamed : Pattern.named ((inner.down k).range.merge (name.down k).range)
              (inner.down k) (name.down k) =
              (Pattern.named (inner.range.merge name.range) inner name).down k := by
            simp [Pattern.down, Located.down]
          dsimp only [Prod.map]
          rw [hnamed]
          exact ih _ ts
        | _ => rfl
      | _ => rfl

/-- With this fuel all readers read the same patterns further down. -/
structure PatternReadersDown (k fuel : Nat) : Prop where
  pattern : ReadsDown k (Pattern.down k) (pattern fuel)
  consPattern : ReadsDown k (Pattern.down k) (consPattern fuel)
  applicationPattern : ReadsDown k (Pattern.down k) (applicationPattern fuel)
  atomPattern : ReadsDown k (Pattern.down k) (atomPattern fuel)

variable {fuel : Nat} (ih : PatternReadersDown k fuel)
include ih

theorem pattern_down_succ : ReadsDown k (Pattern.down k) (pattern (fuel + 1)) := by
  intro ts
  unfold pattern
  refine bind_moved (ih.consPattern ts) ?_
  rintro ⟨inner, ts⟩
  dsimp only [Prod.map]
  rw [length_down]
  exact aliases_down inner _ ts

/-- The reader of patterns with `::` moves down. -/
theorem consPattern_down_succ : ReadsDown k (Pattern.down k) (consPattern (fuel + 1)) := by
  intro ts
  unfold consPattern
  refine bind_moved (ih.applicationPattern ts) ?_
  rintro ⟨head, ts⟩
  dsimp only [Prod.map]
  rw [nextIs_down, tail_down]
  split
  · refine bind_moved (ih.consPattern ts.tail) ?_
    rintro ⟨tail, ts⟩
    simp [Pattern.down]
  · rfl

omit ih in
/-- A constructor spans its name and its arguments on either row. -/
theorem foldl_merge_down (range : Range) (args : List Pattern) :
    (args.map (Pattern.down k)).foldl (fun r p => r.merge p.range) (range.down k) =
      (args.foldl (fun r p => r.merge p.range) range).down k := by
  induction args generalizing range with
  | nil => rfl
  | cons p args ih =>
    rw [List.map_cons, List.foldl_cons, List.foldl_cons, Pattern.range_down, Range.merge_down, ih]

/-- The reader of constructors with their arguments moves down. -/
theorem applicationPattern_down_succ :
    ReadsDown k (Pattern.down k) (applicationPattern (fuel + 1)) := by
  intro ts
  unfold applicationPattern
  rcases ts with - | ⟨⟨kind, range, startsRow⟩, ts⟩
  · exact ih.atomPattern []
  · cases kind with
    | upper path name =>
      rw [tokensDown_cons]
      dsimp only
      rw [length_down]
      refine bind_moved (repeatedly_down (startsPatternAtom_down k) ih.atomPattern _ ts) ?_
      rintro ⟨args, ts⟩
      dsimp only [Prod.map]
      rw [foldl_merge_down]
      simp [Pattern.down]
    | _ => exact ih.atomPattern (_ :: ts)

/-- Patterns in parentheses. -/
theorem parenthesized_down (start : Range) (ts : List Token) : (do
      let (items, rest) ← commaSeparated (pattern fuel) ts.length.succ (tokensDown k ts)
      let (stop, rest) ← expectMark .rightParen rest
      match items with
      | [inner] => .ok (Pattern.paren ((start.down k).merge stop) inner, rest)
      | _ => .ok (.tuple ((start.down k).merge stop) items, rest)) =
    moved k (Prod.map (Pattern.down k) (tokensDown k)) (do
      let (items, rest) ← commaSeparated (pattern fuel) ts.length.succ ts
      let (stop, rest) ← expectMark .rightParen rest
      match items with
      | [inner] => .ok (.paren (start.merge stop) inner, rest)
      | _ => .ok (.tuple (start.merge stop) items, rest)) := by
  refine bind_moved (commaSeparated_down ih.pattern _ ts) ?_
  rintro ⟨items, ts⟩
  refine bind_moved (expectMark_down .rightParen ts) ?_
  rintro ⟨stop, ts⟩
  rcases items with - | ⟨first, - | ⟨second, items⟩⟩ <;> simp [Pattern.down]

/-- The reader of patterns that need no parentheses moves down. -/
theorem atomPattern_down_succ : ReadsDown k (Pattern.down k) (atomPattern (fuel + 1)) := by
  intro ts
  unfold atomPattern
  rcases ts with - | ⟨⟨kind, start, startsRow⟩, ts⟩
  · rfl
  rw [tokensDown_cons]
  cases kind with
  | lower path name => cases path <;> rfl
  | minus => exact negatedNumber_down start ts
  | leftParen =>
    dsimp only
    rw [length_down]
    have hinside := parenthesized_down ih start ts
    rcases ts with - | ⟨⟨kind, stop, stopStartsRow⟩, ts⟩
    · exact hinside
    · cases kind with
      | rightParen => simp [tokensDown_cons, Pattern.down]
      | _ => exact hinside
  | leftBracket =>
    dsimp only
    rw [length_down]
    have hinside := bracketed_down (Pattern.down k) ih.pattern .rightBracket ts.length.succ
      (fun start items stop ts => .ok (Pattern.list (start.merge stop) items, ts))
      (by simp [Pattern.down]) start ts
    rcases ts with - | ⟨⟨kind, stop, stopStartsRow⟩, ts⟩
    · exact hinside
    · cases kind with
      | rightBracket => simp [tokensDown_cons, Pattern.down]
      | _ => exact hinside
  | leftBrace =>
    dsimp only
    rw [length_down]
    have hfields : ReadsDown k (Located.down k) (lowerName .fieldName) := lowerName_down _
    have hinside := bracketed_down (Pattern.down k) hfields .rightBrace ts.length.succ
      (fun start fields stop ts => .ok (Pattern.record (start.merge stop) fields, ts))
      (by simp [Pattern.down]) start ts
    rcases ts with - | ⟨⟨kind, stop, stopStartsRow⟩, ts⟩
    · exact hinside
    · cases kind with
      | rightBrace => simp [tokensDown_cons, Pattern.down]
      | _ => exact hinside
  | _ => rfl

omit ih in
/-- Whatever the fuel, the readers read the same patterns further down. -/
theorem patternReadersDown (fuel : Nat) : PatternReadersDown k fuel := by
  induction fuel with
  | zero =>
    -- without fuel every reader refuses
    constructor <;> exact refuse_down _ _
  | succ fuel ih =>
    exact ⟨pattern_down_succ ih, consPattern_down_succ ih, applicationPattern_down_succ ih,
      atomPattern_down_succ ih⟩

omit ih in
theorem readPattern_down : ReadsDown k (Pattern.down k) readPattern := by
  intro ts
  rw [readPattern, fuelFor_down]
  exact (patternReadersDown _).pattern ts

omit ih in
theorem readAtomPattern_down : ReadsDown k (Pattern.down k) readAtomPattern := by
  intro ts
  rw [readAtomPattern, fuelFor_down]
  exact (patternReadersDown _).atomPattern ts

end Terse.Grammar
