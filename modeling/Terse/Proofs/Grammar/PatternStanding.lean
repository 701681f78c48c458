import Terse.Grammar.Pattern
import Terse.Proofs.Grammar.Standing

/-!
# Patterns and their tokens

A pattern that is read is written with the tokens that were used up for it. All readers of patterns
are treated together, by induction on the fuel that bounds how deep they call each other.
-/

namespace Terse.Grammar

open Token (Kind)
open Item (token part commas)

variable {place : Location → Prop}

/-- The reader returns patterns that are written with the tokens used up, and `ok` holds of them. -/
abbrev CoversPattern (place : Location → Prop) (ok : Pattern → Prop)
    (read : List Token → Reading (Pattern × List Token)) : Prop :=
  CoversNode place Node.pattern (fun p _ => ok p) read

/-- The pattern is written with the front of the tokens, and `ok` holds of it. -/
def PatternOn (ok : Pattern → Prop) (ts : List Token) (p : Pattern) (rest : List Token) : Prop :=
  ∃ own, ts = own ++ rest ∧ (Node.pattern p).Stands own ∧ ok p

/-! ## Numbers and further names -/

theorem spelled_int {t : Token} {n : Nat} (ht : t.kind = .int n) :
    Spelled Node.Sits (Literal.items (.int n)) [t] := by
  by_cases hn : n = 0
  · subst hn
    exact .absent (.token ht .nil)
  · have hitems : Literal.items (.int n) = [token (.int n)] := by
      simp [Literal.items, Literal.isNegative, Literal.kind, hn]
    rw [hitems]
    exact .token ht .nil

theorem spelled_hex {t : Token} {n : Nat} (ht : t.kind = .hex n) :
    Spelled Node.Sits (Literal.items (.hex n)) [t] := by
  have hitems : Literal.items (.hex n) = [token (.hex n)] := by
    simp [Literal.items, Literal.isNegative, Literal.kind]
  rw [hitems]
  exact .token ht .nil

/-- A token of a number with a point spells that number, since tokens have no sign. -/
theorem spelled_float {t : Token} {x : Double} (ht : t.kind = .float x)
    (hx : x.negative = false) : Spelled Node.Sits (Literal.items (.float x)) [t] := by
  have hitems : Literal.items (.float x) = [token (.float x)] := by
    simp [Literal.items, Literal.isNegative, Literal.kind, hx]
  rw [hitems]
  exact .token ht .nil

/-- A number behind a minus sign is read as one pattern over both tokens. -/
theorem negatedNumber_on {minus : Token} {ts rest : List Token} {p : Pattern}
    (hminus : minus.kind = .minus) (hts : Tidy place (minus :: ts))
    (h : negatedNumber minus.range ts = .ok (p, rest)) :
    PatternOn (·.isAtom) (minus :: ts) p rest := by
  unfold negatedNumber at h
  split at h
  · rename_i n range startsRow ts
    have hmerge := merge_pair hts
    cases h
    refine ⟨[minus, ⟨.int n, range, startsRow⟩], rfl, ⟨⟨trivial, hmerge⟩, ?_⟩, rfl⟩
    -- minus zero is zero, whose sign the items leave open
    by_cases hn : n = 0
    · subst hn
      exact .present hminus (.token rfl .nil)
    · have hneg : -(n : Int) < 0 := by omega
      simp only [Node.items, Pattern.items, Literal.items, Literal.isNegative, Literal.negate,
        Literal.kind, hneg, decide_true, if_true, Int.neg_neg, Int.toNat_natCast]
      exact .token hminus (.token rfl .nil)
  · rename_i x range startsRow ts
    have hmerge := merge_pair hts
    have hregular : x.negative = false := hts.tail.head.regular
    cases h
    refine ⟨[minus, ⟨.float x, range, startsRow⟩], rfl, ⟨⟨trivial, hmerge⟩, ?_⟩, rfl⟩
    -- a number as it is cut has no sign, so with the minus it has one
    have hneg : (Literal.float x.negate).isNegative = true := by
      simp [Literal.isNegative, Double.negate, hregular]
    have hback : (Literal.float x.negate).negate.kind = .float x := by
      simp [Literal.negate, Literal.kind, Double.negate]
    simp only [Node.items, Pattern.items, Literal.items, hneg, if_true, hback]
    exact .token hminus (.token rfl .nil)
  · exact absurd h refuse_ne_ok

/-- The names behind a pattern are read around it, one after the other. -/
theorem aliases_on {inner p : Pattern} {fuel : Nat} {own ts rest : List Token}
    (hts : Tidy place (own ++ ts)) (hinner : (Node.pattern inner).Stands own)
    (h : aliases inner fuel ts = .ok (p, rest)) :
    PatternOn (fun _ => True) (own ++ ts) p rest := by
  induction fuel generalizing inner own ts with
  | zero => exact absurd h refuse_ne_ok
  | succ fuel ih =>
    unfold aliases at h
    split at h
    · rename_i asRange startsRow ts
      simp only [bind_ok_iff] at h
      rcases h with ⟨⟨name, ts'⟩, hname, h⟩
      rcases of_lowerName hname with ⟨t, rfl, hstands⟩
      have hall : own ++ ⟨.keyword .asWord, asRange, startsRow⟩ :: t :: ts' =
          (own ++ ([⟨.keyword .asWord, asRange, startsRow⟩] ++ [t])) ++ ts' := by simp
      rw [hall] at hts ⊢
      have hmerge := hts.left.merge_extent hinner.ne_nil (by simp)
      rw [← Pattern.range_of_stands hinner, ← hstands.range_eq (by simp)] at hmerge
      -- the named pattern stands on the tokens so far, and may be named again
      have hnamed : (Node.pattern (.named (inner.range.merge name.range) inner name)).Stands
          (own ++ ([⟨.keyword .asWord, asRange, startsRow⟩] ++ [t])) :=
        ⟨⟨trivial, hmerge⟩,
          .part hinner.1 hinner.2 (.token rfl (spelled_part_singleton.mpr hstands))⟩
      exact ih hts hnamed h
    · cases h
      exact ⟨own, rfl, hinner, trivial⟩

/-! ## All readers of patterns -/

/-- With this fuel all readers return patterns that are written with the tokens used up. -/
structure PatternCovers (place : Location → Prop) (fuel : Nat) : Prop where
  pattern : CoversPattern place (fun _ => True) (pattern fuel)
  consPattern : CoversPattern place (·.isUnnamed) (consPattern fuel)
  applicationPattern : CoversPattern place (·.isApplied) (applicationPattern fuel)
  atomPattern : CoversPattern place (·.isAtom) (atomPattern fuel)

variable {fuel : Nat} (ih : PatternCovers place fuel)
include ih

/-- Patterns with further names stand over the tokens they are read from. -/
theorem pattern_covers_succ : CoversPattern place (fun _ => True) (pattern (fuel + 1)) := by
  intro ts p rest hts h
  simp only [pattern, bind_ok_iff] at h
  rcases h with ⟨⟨inner, ts'⟩, hinner, h⟩
  rcases ih.consPattern hts hinner with ⟨own, rfl, hown, -⟩
  exact aliases_on hts hown h

/-- Patterns with `::` stand over the tokens they are read from. -/
theorem consPattern_covers_succ : CoversPattern place (·.isUnnamed) (consPattern (fuel + 1)) := by
  intro ts p rest hts h
  simp only [consPattern, bind_ok_iff] at h
  rcases h with ⟨⟨head, ts'⟩, hhead, h⟩
  rcases ih.applicationPattern hts hhead with ⟨own, rfl, hown, hok⟩
  split at h
  · rename_i hnext
    rcases exists_of_nextIs hnext with ⟨t, ts, rfl, ht⟩
    simp only [bind_ok_iff] at h
    rcases h with ⟨⟨tail, rest⟩, htail, h⟩
    rcases ih.consPattern hts.right.tail htail with ⟨more, rfl, hmore, hok'⟩
    cases h
    have hall : own ++ t :: (more ++ rest) = (own ++ ([t] ++ more)) ++ rest := by simp
    rw [hall] at hts
    -- the range of the pattern goes from its head to the end of its tail
    have hmerge := hts.left.merge_extent hown.ne_nil hmore.ne_nil
    rw [← Pattern.range_of_stands hown, ← Pattern.range_of_stands hmore] at hmerge
    refine ⟨_, hall, ⟨⟨⟨hok, hok'⟩, hmerge⟩, ?_⟩, rfl⟩
    exact .part hown.1 hown.2 (.token ht (spelled_part_singleton.mpr hmore))
  · cases h
    exact ⟨own, rfl, hown, Pattern.isUnnamed_of_isApplied hok⟩

omit ih in
/-- A constructor reaches from its name to the last of its arguments. -/
theorem foldl_merge_extent {args : List Pattern} {used own : List Token} (hused : used ≠ [])
    (hts : Tidy place (used ++ own))
    (hargs : Spelled Node.Sits (args.map (part ∘ .pattern)) own) :
    args.foldl (fun r p => r.merge p.range) (extent used) = extent (used ++ own) := by
  induction args generalizing used own with
  | nil =>
    obtain rfl := spelled_nil.mp hargs
    simp
  | cons p args ihargs =>
    rw [List.map_cons, Function.comp, spelled_part] at hargs
    rcases hargs with ⟨first, rest, rfl, hp, hrest⟩
    rw [← List.append_assoc] at hts
    have hmerge : (extent used).merge (extent first) = extent (used ++ first) :=
      hts.left.merge_adjacent hused hp.ne_nil
    rw [List.foldl_cons, Pattern.range_of_stands hp, hmerge, ← List.append_assoc]
    exact ihargs (by simp [hused]) hts hrest

/-- Constructors with their arguments stand over the tokens they are read from. -/
theorem applicationPattern_covers_succ :
    CoversPattern place (·.isApplied) (applicationPattern (fuel + 1)) := by
  intro ts p rest hts h
  unfold applicationPattern at h
  split at h
  · rename_i path name range startsRow ts
    simp only [bind_ok_iff, pure_ok_iff, Prod.mk.injEq] at h
    rcases h with ⟨⟨args, rest⟩, hargs, rfl, rfl⟩
    rcases repeatedly_covers ih.atomPattern _ hts.tail hargs with ⟨own, rfl, hown, hok⟩
    have hused : Tidy place (([⟨.upper path name, range, startsRow⟩] ++ own) ++ rest) := hts
    have hrange := foldl_merge_extent (by simp) hused.left hown
    exact ⟨⟨.upper path name, range, startsRow⟩ :: own, rfl, ⟨⟨hok, hrange⟩, .token rfl hown⟩, rfl⟩
  · rcases ih.atomPattern hts h with ⟨own, rfl, hown, hok⟩
    exact ⟨own, rfl, hown, Pattern.isApplied_of_isAtom hok⟩

/-- Patterns that need no parentheses stand over the tokens they are read from. -/
theorem atomPattern_covers_succ : CoversPattern place (·.isAtom) (atomPattern (fuel + 1)) := by
  intro ts p rest hts h
  unfold atomPattern at h
  split at h
  -- a single token
  case h_1 | h_2 | h_7 | h_8 =>
    cases h
    exact ⟨[_], rfl, ⟨⟨trivial, rfl⟩, .token rfl .nil⟩, rfl⟩
  · cases h
    have hargs : ∀ a ∈ ([] : List Pattern), a.isAtom := by simp
    exact ⟨[_], rfl, ⟨⟨hargs, rfl⟩, .token rfl .nil⟩, rfl⟩
  · cases h
    exact ⟨[_], rfl, ⟨⟨trivial, rfl⟩, spelled_int rfl⟩, rfl⟩
  · cases h
    exact ⟨[_], rfl, ⟨⟨Int.natCast_nonneg _, rfl⟩, spelled_hex rfl⟩, rfl⟩
  · cases h
    exact ⟨[_], rfl, ⟨⟨trivial, rfl⟩, spelled_float rfl hts.head.regular⟩, rfl⟩
  -- a negated number
  · exact negatedNumber_on rfl hts h
  -- after an opening parenthesis
  · split at h
    · have hrange := merge_pair hts
      cases h
      exact ⟨[_, _], rfl, ⟨⟨trivial, hrange⟩, .token rfl (.token rfl .nil)⟩, rfl⟩
    · simp only [bind_ok_iff] at h
      rcases h with ⟨⟨items, ts1⟩, hitems, ⟨closing, ts2⟩, hclosing, h⟩
      rcases bracketed_covers (CoversNode.covers ih.pattern) [] (.token rfl .nil) hts hitems
        hclosing with ⟨own, hown, hrange, hne, hspelled⟩
      dsimp only at h
      split at h
      · cases h
        exact ⟨own, hown, ⟨⟨trivial, hrange⟩, hspelled⟩, rfl⟩
      · rename_i hsingle
        cases h
        exact ⟨own, hown, ⟨⟨two_le_length hne hsingle, hrange⟩, hspelled⟩, rfl⟩
  -- after an opening bracket
  · split at h
    · have hrange := merge_pair hts
      cases h
      exact ⟨[_, _], rfl, ⟨⟨trivial, hrange⟩, .token rfl (.token rfl .nil)⟩, rfl⟩
    · simp only [bind_ok_iff] at h
      rcases h with ⟨⟨items, ts1⟩, hitems, ⟨closing, ts2⟩, hclosing, h⟩
      rcases bracketed_covers (CoversNode.covers ih.pattern) [] (.token rfl .nil) hts hitems
        hclosing with ⟨own, hown, hrange, hne, hspelled⟩
      cases h
      exact ⟨own, hown, ⟨⟨trivial, hrange⟩, hspelled⟩, rfl⟩
  -- after an opening brace
  · split at h
    · have hrange := merge_pair hts
      cases h
      exact ⟨[_, _], rfl, ⟨⟨trivial, hrange⟩, .token rfl (.token rfl .nil)⟩, rfl⟩
    · simp only [bind_ok_iff] at h
      rcases h with ⟨⟨fields, ts1⟩, hfields, ⟨closing, ts2⟩, hclosing, h⟩
      rcases bracketed_covers (CoversNode.covers (covers_lowerName _)) [] (.token rfl .nil) hts
        hfields hclosing with ⟨own, hown, hrange, hne, hspelled⟩
      cases h
      exact ⟨own, hown, ⟨⟨trivial, hrange⟩, hspelled⟩, rfl⟩
  · exact absurd h refuse_ne_ok

omit ih in
/-- Whatever the fuel, readers return patterns that are written with the tokens used up. -/
theorem patternCovers (fuel : Nat) : PatternCovers place fuel := by
  induction fuel with
  | zero =>
    constructor <;> intro ts p rest hts h <;> exact absurd h refuse_ne_ok
  | succ fuel ih =>
    exact ⟨pattern_covers_succ ih, consPattern_covers_succ ih, applicationPattern_covers_succ ih,
      atomPattern_covers_succ ih⟩

omit ih in
/-- Every pattern stands over the tokens it is read from. -/
theorem readPattern_covers : CoversPattern place (fun _ => True) readPattern := by
  intro ts p rest hts h
  exact (patternCovers _).pattern hts h

omit ih in
theorem readAtomPattern_covers : CoversPattern place (·.isAtom) readAtomPattern := by
  intro ts p rest hts h
  exact (patternCovers _).atomPattern hts h

end Terse.Grammar
