import Terse.Grammar.Reading
import Terse.Proofs.Token.Down

/-!
# Reading further down

A reader looks at what its tokens are, at their columns and at whether they start their rows, but
not at how far down they stand. So tokens that stand further down are read to the same, further
down, and an error is the same there.
-/

namespace Terse

/-- The error, `k` rows further down. The end of a text has no place. -/
def ParseError.down (k : Nat) : ParseError → ParseError
  | .unexpected location found expected => .unexpected (location.down k) found expected
  | .unexpectedEnd expected => .unexpectedEnd expected
  | .fault location f => .fault (location.down k) f
  | .unsupported location construct => .unsupported (location.down k) construct

namespace Grammar

open Token (Kind)

variable {α β γ δ : Type} {k : Nat}

/-! ## Outcomes -/

/-- The outcome further down: what was read is moved by `move`, an error by its rows. -/
def moved (k : Nat) (move : α → β) : Reading α → Reading β
  | .ok a => .ok (move a)
  | .error e => .error (e.down k)

@[simp] theorem moved_ok (move : α → β) (a : α) : moved k move (.ok a) = .ok (move a) := rfl

@[simp] theorem moved_pure (move : α → β) (a : α) : moved k move (pure a) = pure (move a) := rfl

/-- A step and what follows it, if it succeeds, are moved one after the other. -/
theorem bind_moved_of_ok {move : α → β} {move' : γ → δ} {x : Reading α} {x' : Reading β}
    {next : α → Reading γ} {next' : β → Reading δ} (hx : x' = moved k move x)
    (hnext : ∀ a, x = .ok a → next' (move a) = moved k move' (next a)) :
    x' >>= next' = moved k move' (x >>= next) := by
  subst hx
  cases x with
  | error e => rfl
  | ok a => exact hnext a rfl

/-- Two steps that move down one after the other move down together. -/
theorem bind_moved {move : α → β} {move' : γ → δ} {x : Reading α} {x' : Reading β}
    {next : α → Reading γ} {next' : β → Reading δ} (hx : x' = moved k move x)
    (hnext : ∀ a, next' (move a) = moved k move' (next a)) :
    x' >>= next' = moved k move' (x >>= next) :=
  bind_moved_of_ok hx fun a _ => hnext a

/-! ## Readers -/

/-- The tokens, `k` rows further down. -/
def tokensDown (k : Nat) (ts : List Token) : List Token := ts.map (Token.down k)

theorem tokensDown_cons (k : Nat) (kind : Kind) (range : Range) (startsRow : Bool)
    (ts : List Token) : tokensDown k (⟨kind, range, startsRow⟩ :: ts) =
      ⟨kind, range.down k, startsRow⟩ :: tokensDown k ts := rfl

/-- From tokens that stand further down the reader reads the same, further down. -/
def ReadsDown (k : Nat) (move : α → α) (read : List Token → Reading (α × List Token)) : Prop :=
  ∀ ts, read (tokensDown k ts) = moved k (Prod.map move (tokensDown k)) (read ts)

/-- A refusal moves down with the token it points at. -/
theorem refuse_down (move : α → β) (expected : Expected) (ts : List Token) :
    refuse expected (tokensDown k ts) = moved k move (refuse expected ts) := by
  cases ts <;> rfl

/-- The kind of the next token does not depend on the row it stands in. -/
@[simp] theorem nextKind_down (k : Nat) (ts : List Token) :
    nextKind (tokensDown k ts) = nextKind ts := by
  cases ts <;> rfl

@[simp] theorem nextIs_down (k : Nat) (kind : Kind) (ts : List Token) :
    nextIs kind (tokensDown k ts) = nextIs kind ts := by
  rw [nextIs, nextKind_down, nextIs]

/-- Where the layout ends is a matter of columns and of the first token of a row, not of the row. -/
@[simp] theorem layoutEnds_down (k indent : Nat) (ts : List Token) :
    layoutEnds indent (tokensDown k ts) = layoutEnds indent ts := by
  cases ts <;> rfl

@[simp] theorem tail_down (k : Nat) (ts : List Token) :
    (tokensDown k ts).tail = tokensDown k ts.tail := (List.map_tail ..).symm

@[simp] theorem length_down (k : Nat) (ts : List Token) :
    (tokensDown k ts).length = ts.length := List.length_map _

/-- A reader of one token moves down. -/
theorem expect_down (kind : Kind) (expected : Expected) :
    ReadsDown k (Range.down k) (expect kind expected) := by
  intro ts
  cases ts with
  | nil => rfl
  | cons t ts =>
    rw [tokensDown, List.map_cons, expect, expect]
    by_cases hkind : t.kind = kind
    · rw [if_pos hkind]
      exact if_pos hkind
    · rw [if_neg hkind]
      exact (if_neg hkind).trans (refuse_down _ expected (t :: ts))

theorem expectMark_down (kind : Kind) : ReadsDown k (Range.down k) (expectMark kind) :=
  expect_down _ _

theorem expectWord_down (keyword : Keyword) :
    ReadsDown k (Range.down k) (expectWord keyword) :=
  expect_down _ _

/-- A reader of a name moves down. -/
theorem lowerName_down (expected : Expected) :
    ReadsDown k (Located.down k) (lowerName expected) := by
  intro ts
  rcases ts with - | ⟨⟨kind, range, startsRow⟩, ts⟩
  · rfl
  · cases kind with
    | lower path name => cases path <;> rfl
    | _ => rfl

theorem moduleName_down : ReadsDown k (Located.down k) moduleName := by
  intro ts
  rcases ts with - | ⟨⟨kind, range, startsRow⟩, ts⟩
  · rfl
  · cases kind <;> rfl

/-! ## Lists -/

/-- A reader of items with commas between them moves down when the reader of one item does. -/
theorem commaSeparated_down {move : α → α} {item : List Token → Reading (α × List Token)}
    (hitem : ReadsDown k move item) (fuel : Nat) :
    ReadsDown k (List.map move) (commaSeparated item fuel) := by
  induction fuel with
  | zero => exact refuse_down _ _
  | succ fuel ih =>
    intro ts
    unfold commaSeparated
    refine bind_moved (hitem ts) ?_
    rintro ⟨first, ts⟩
    rcases ts with - | ⟨⟨kind, range, startsRow⟩, ts⟩
    · rfl
    · cases kind with
      | comma => exact bind_moved (ih ts) fun _ => rfl
      | _ => rfl

/-- A reader of items in a row moves down when the reader of one item does. -/
theorem repeatedly_down {move : α → α} {announced : List Token → Bool}
    {item : List Token → Reading (α × List Token)}
    (hannounced : ∀ ts, announced (tokensDown k ts) = announced ts) (hitem : ReadsDown k move item)
    (fuel : Nat) : ReadsDown k (List.map move) (repeatedly announced item fuel) := by
  induction fuel with
  | zero => exact fun ts => rfl
  | succ fuel ih =>
    intro ts
    rw [repeatedly, repeatedly, hannounced]
    by_cases hnext : announced ts = true
    · rw [if_pos hnext, if_pos hnext]
      refine bind_moved (hitem ts) ?_
      rintro ⟨first, ts⟩
      exact bind_moved (ih ts) fun _ => rfl
    · rw [if_neg hnext, if_neg hnext]
      rfl

/-- Items with commas between them, up to a closing mark, and what is made of them and of the marks
on both sides. -/
theorem bracketed_down (move' : β → β) {move : α → α}
    {item : List Token → Reading (α × List Token)} (hitem : ReadsDown k move item) (close : Kind)
    (fuel : Nat) (finish : Range → List α → Range → List Token → Reading (β × List Token))
    (hfinish : ∀ start items stop ts,
      finish (start.down k) (items.map move) (stop.down k) (tokensDown k ts) =
        moved k (Prod.map move' (tokensDown k)) (finish start items stop ts))
    (start : Range) (ts : List Token) :
    (do
      let (items, rest) ← commaSeparated item fuel (tokensDown k ts)
      let (stop, rest) ← expectMark close rest
      finish (start.down k) items stop rest) =
    moved k (Prod.map move' (tokensDown k)) (do
      let (items, rest) ← commaSeparated item fuel ts
      let (stop, rest) ← expectMark close rest
      finish start items stop rest) := by
  refine bind_moved (commaSeparated_down hitem fuel ts) ?_
  rintro ⟨items, ts⟩
  refine bind_moved (expectMark_down close ts) ?_
  rintro ⟨stop, ts⟩
  exact hfinish start items stop ts

theorem fuelFor_down (k : Nat) (ts : List Token) : fuelFor (tokensDown k ts) = fuelFor ts := by
  rw [fuelFor, length_down, fuelFor]

end Grammar

end Terse
