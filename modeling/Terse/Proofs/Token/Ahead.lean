import Terse.Proofs.Text.Line
import Terse.Proofs.Text.Position
import Terse.Token.Scan

/-!
# Tokens in their places

The lexemes that a text is cut into give the text back when they are put together, and none of
them is empty. So the tokens of a text follow one another, and each starts and ends at a place of
the text.
-/

namespace Terse

/-! ## Tokens in a row -/

/-- The tokens follow one another from a location on, and each has its place. -/
def Ahead (place : Location → Prop) (start : Location) : List Token → Prop
  | [] => True
  | t :: ts => start ≤ t.range.start ∧ t.range.Proper place ∧ Ahead place t.range.stop ts

variable {place : Location → Prop}

theorem Ahead.mono {start start' : Location} {ts : List Token} (h : Ahead place start ts)
    (hle : start' ≤ start) : Ahead place start' ts := by
  cases ts with
  | nil => trivial
  | cons t ts => exact ⟨hle.trans h.1, h.2⟩

/-! ## Cutting and placing -/

namespace Lexeme

open Token (Kind)

theorem join_cons (p : Piece) (ps : List Piece) : join (p :: ps) = p.text ++ join ps :=
  List.flatMap_cons

/-- The lexeme stood at the front of some text. -/
def Piece.IsRead (p : Piece) : Prop :=
  ∃ attached c rest n, next attached c rest = .ok (p.kind, n) ∧ p.text = c :: rest.take n

/-- Lexemes are cut off a text from its front, and nothing is left when the cutting does not stop
before the end. -/
theorem cutFrom_front {skip : Nat} {attached : Option Kind} {cs : List Char} {ps : List Piece}
    {fault : Option Fault} (h : cutFrom skip attached cs = (ps, fault)) :
    (∀ p ∈ ps, p.IsRead) ∧ ∃ rest, cs.drop skip = join ps ++ rest ∧ (fault = none → rest = []) := by
  induction cs generalizing skip attached ps fault with
  | nil =>
    rw [cutFrom] at h
    cases h
    exact ⟨by simp, [], by simp [join], fun _ => rfl⟩
  | cons c cs ih =>
    cases skip with
    | succ skip =>
      rw [cutFrom] at h
      -- this character belongs to the lexeme before it
      exact ih h
    | zero =>
      rw [cutFrom] at h
      split at h
      · cases h
        exact ⟨by simp, c :: cs, rfl, nofun⟩
      · rename_i kind n hnext
        cases hcut : cutFrom n kind.token? cs with
        | mk pieces fault' =>
          rw [hcut] at h
          cases h
          rcases ih hcut with ⟨hread, rest, hrest, hfault⟩
          refine ⟨List.forall_mem_cons.mpr ⟨⟨attached, c, cs, n, hnext, rfl⟩, hread⟩, rest, ?_,
            hfault⟩
          rw [join_cons, List.append_assoc, ← hrest]
          simp

/-- Cutting to the end uses up the whole text. -/
theorem join_cutFrom {skip : Nat} {attached : Option Kind} {cs : List Char} {ps : List Piece}
    (h : cutFrom skip attached cs = (ps, none)) : join ps = cs.drop skip := by
  rcases cutFrom_front h with ⟨-, rest, hrest, hnil⟩
  rw [hrest, hnil rfl, List.append_nil]

theorem text_ne_nil_of_cutFrom {skip : Nat} {attached : Option Kind} {cs : List Char}
    {ps : List Piece} {fault : Option Fault} (h : cutFrom skip attached cs = (ps, fault)) :
    ∀ p ∈ ps, p.text ≠ [] := by
  intro p hp
  rcases (cutFrom_front h).1 p hp with ⟨attached, c, rest, n, -, htext⟩
  simp [htext]

/-- Lexemes that make up the rest of a text are placed one after the other in it. -/
theorem ahead_place {before : List Char} {ps : List Piece}
    (hplace : ∀ cs rest, before ++ join ps = cs ++ rest → place (Location.origin.afterAll cs))
    (hps : ∀ p ∈ ps, p.text ≠ []) (row : Option Nat) :
    Ahead place (Location.origin.afterAll before)
      (Lexeme.place (Location.origin.afterAll before) row ps) := by
  induction ps generalizing before row with
  | nil => trivial
  | cons p ps ih =>
    rw [List.forall_mem_cons] at hps
    have hjoin : (before ++ p.text) ++ join ps = before ++ join (p :: ps) := by
      rw [join_cons, List.append_assoc]
    have hstop : (Location.origin.afterAll before).afterAll p.text =
        Location.origin.afterAll (before ++ p.text) :=
      (Location.afterAll_append _ _ _).symm
    -- a lexeme is not empty, so it ends behind its start
    have hlt : Location.origin.afterAll before < Location.origin.afterAll (before ++ p.text) := by
      rw [← hstop]
      exact Location.lt_afterAll _ hps.1
    have hplace' : ∀ cs rest, (before ++ p.text) ++ join ps = cs ++ rest →
        place (Location.origin.afterAll cs) := by
      intro cs rest h
      exact hplace cs rest (hjoin ▸ h)
    have hrest := fun row => ih hplace' hps.2 row
    simp only [Lexeme.place, hstop]
    split
    · exact ⟨le_rfl, ⟨hlt, hplace _ _ rfl, hplace' _ _ rfl⟩, hrest _⟩
    · -- a lexeme that is skipped leaves a gap
      exact (hrest row).mono hlt.le

end Lexeme

/-- The location is one of the text. -/
def SourceText.HasPlace (s : SourceText) (l : Location) : Prop := (s.index? l).isSome

instance (s : SourceText) (l : Location) : Decidable (s.HasPlace l) :=
  inferInstanceAs (Decidable (s.index? l).isSome)

/-- The tokens of a text follow one another, each in its place. -/
theorem Token.ahead_scan {text : List Char} {ts : List Token} (h : Token.scan text = .ok ts) :
    Ahead (SourceText.mk text).HasPlace Location.origin ts := by
  unfold scan at h
  split at h
  · rename_i pieces hcut
    cases h
    have hjoin : Lexeme.join pieces = text := Lexeme.join_cutFrom hcut
    have hplace : ∀ cs rest, [] ++ Lexeme.join pieces = cs ++ rest →
        (SourceText.mk text).HasPlace (Location.origin.afterAll cs) := by
      intro cs rest hsplit
      have hchars : (SourceText.mk text).chars = cs ++ rest := by
        rw [← hsplit, List.nil_append, hjoin]
      unfold SourceText.HasPlace
      rw [SourceText.index?_afterAll hchars]
      rfl
    exact Lexeme.ahead_place hplace (Lexeme.text_ne_nil_of_cutFrom hcut) none
  · cases h

end Terse
