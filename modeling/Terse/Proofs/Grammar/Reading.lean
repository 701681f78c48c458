import Terse.Grammar.Reading
import Terse.Proofs.Outcome

/-!
# What readers leave

A reader refuses what it cannot read, and otherwise leaves a part of its tokens.
-/

namespace Terse.Grammar

open Token (Kind)

variable {α : Type}

theorem refuse_ne_ok {expected : Expected} {ts : List Token} {a : α} :
    refuse expected ts ≠ .ok a := by
  intro h
  cases ts <;> cases h

/-- The next token is one of this kind, with its place. -/
theorem exists_of_nextIs {kind : Kind} {ts : List Token} (h : nextIs kind ts = true) :
    ∃ t rest, ts = t :: rest ∧ t.kind = kind := by
  cases ts with
  | nil => simp [nextIs, nextKind] at h
  | cons t rest => exact ⟨t, rest, rfl, by simpa [nextIs, nextKind] using h⟩

/-- An expected token was the first one, and its range is returned. -/
theorem of_expect {kind : Kind} {expected : Expected} {ts rest : List Token} {r : Range}
    (h : expect kind expected ts = .ok (r, rest)) :
    ∃ t, ts = t :: rest ∧ t.kind = kind ∧ t.range = r := by
  cases ts with
  | nil => cases h
  | cons t ts =>
    rw [expect] at h
    split at h
    · cases h
      exact ⟨t, rfl, ‹_›, rfl⟩
    · exact absurd h refuse_ne_ok

/-- The reader leaves a part of its tokens. -/
def Leaves (read : List Token → Reading (α × List Token)) : Prop :=
  ∀ {ts a rest}, read ts = .ok (a, rest) → rest <:+ ts

theorem suffix_of_cons {t : Token} {ts rest : List Token} (h : rest <:+ ts) : rest <:+ t :: ts :=
  h.trans (List.suffix_cons t ts)

/-- Reading an expected token only uses up tokens. -/
theorem leaves_expect (kind : Kind) (expected : Expected) : Leaves (expect kind expected) := by
  intro ts r rest h
  rcases of_expect h with ⟨t, rfl, -⟩
  exact List.suffix_cons t rest

/-- Reading items with commas between them only uses up tokens when reading one item does. -/
theorem leaves_commaSeparated {item : List Token → Reading (α × List Token)} (hitem : Leaves item)
    (fuel : Nat) : Leaves (commaSeparated item fuel) := by
  induction fuel with
  | zero =>
    intro ts xs rest h
    exact absurd h refuse_ne_ok
  | succ fuel ih =>
    intro ts xs rest h
    simp only [commaSeparated, bind_ok_iff] at h
    rcases h with ⟨⟨first, ts'⟩, hfirst, h⟩
    have hleft := hitem hfirst
    dsimp only at h
    split at h
    · simp only [bind_ok_iff] at h
      rcases h with ⟨⟨others, ts''⟩, hothers, h⟩
      cases h
      exact (suffix_of_cons (ih hothers)).trans hleft
    · cases h
      exact hleft

end Terse.Grammar
