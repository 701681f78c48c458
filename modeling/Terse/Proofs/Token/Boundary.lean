import Terse.Proofs.Token.Excerpt

/-!
# Places between lexemes

A text is cut from the left to the right. At a place where a lexeme is to be read the text falls
into what has been cut and what is left, and a token may end right there. What is read at such a
place is a part of what the whole text is cut into.
-/

namespace Terse

open Token (Kind)

/-- Cutting the text comes to the place between `before` and `behind`; `attached` is the token that
ends there. -/
inductive CutAt (text : List Char) : List Char → Option Kind → List Char → Prop where
  | start : CutAt text [] none text
  | next {before rest : List Char} {attached : Option Kind} {c : Char} {cls : Lexeme.Class}
      {n : Nat} (h : CutAt text before attached (c :: rest))
      (hnext : Lexeme.next attached c rest = .ok (cls, n)) :
      CutAt text (before ++ c :: rest.take n) cls.token? (rest.drop n)

namespace Lexeme

variable {attached : Option Kind} {c : Char} {rest : List Char} {cls : Class} {n : Nat}

/-- The lexeme at the front is the first piece, and the rest is cut in its turn. -/
theorem cutFrom_of_next (h : next attached c rest = .ok (cls, n)) :
    cutFrom 0 attached (c :: rest) =
      (⟨cls, c :: rest.take n⟩ :: (cutFrom 0 cls.token? (rest.drop n)).1,
        (cutFrom 0 cls.token? (rest.drop n)).2) := by
  rw [cutFrom, h]
  dsimp only
  rw [cutFrom_skip]

/-- Tokens are placed behind the text of the lexemes before them. -/
theorem exists_place_append (here : Location) (row : Option Nat) (ps qs : List Piece) :
    ∃ row', place here row (ps ++ qs) =
      place here row ps ++ place (here.afterAll (join ps)) row' qs := by
  induction ps generalizing here row with
  | nil => exact ⟨row, rfl⟩
  | cons p ps ih =>
    rw [List.cons_append, join_cons, Location.afterAll_append]
    rw [place, place]
    split
    · rcases ih (here.afterAll p.text) (some (here.afterAll p.text).row) with ⟨row', hrow⟩
      exact ⟨row', by rw [hrow, List.cons_append]⟩
    · exact ih (here.afterAll p.text) row

end Lexeme

namespace CutAt

variable {text before behind rest : List Char} {attached : Option Kind} {c : Char}

/-- The pieces in front of the place do not depend on what is read behind it. -/
theorem exists_pieces (h : CutAt text before attached behind) :
    ∃ ps, Lexeme.join ps = before ∧
      Lexeme.cut text = (ps ++ (Lexeme.cutFrom 0 attached behind).1,
        (Lexeme.cutFrom 0 attached behind).2) := by
  induction h with
  | start => exact ⟨[], rfl, rfl⟩
  | @next before rest attached c cls n _ hnext ih =>
    rcases ih with ⟨ps, hjoin, hcut⟩
    refine ⟨ps ++ [⟨cls, c :: rest.take n⟩], ?_, ?_⟩
    · rw [Lexeme.join_append, hjoin]
      simp [Lexeme.join]
    · rw [hcut, Lexeme.cutFrom_of_next hnext, List.append_assoc, List.singleton_append]

/-- Where no lexeme can be read, scanning ends with the fault. -/
theorem scan_eq_error {fault : Lexeme.Fault} (h : CutAt text before attached (c :: rest))
    (hnext : Lexeme.next attached c rest = .error fault) :
    Token.scan text = .error (Location.origin.afterAll before, fault) := by
  rcases h.exists_pieces with ⟨ps, rfl, hcut⟩
  have hfault : Lexeme.cutFrom 0 attached (c :: rest) = ([], some fault) := by
    rw [Lexeme.cutFrom, hnext]
  rw [hfault, List.append_nil] at hcut
  rw [Token.scan, hcut]

/-- A token that is read at the place is one of those of the text, and it stands there. -/
theorem exists_token {kind : Kind} {n : Nat} {ts : List Token}
    (h : CutAt text before attached (c :: rest))
    (hnext : Lexeme.next attached c rest = .ok (.token kind, n))
    (hscan : Token.scan text = .ok ts) :
    ∃ t ∈ ts, t.kind = kind ∧ t.range = ⟨Location.origin.afterAll before,
      Location.origin.afterAll (before ++ c :: rest.take n)⟩ := by
  rcases h.exists_pieces with ⟨ps, rfl, hcut⟩
  rcases Token.exists_of_scan hscan with ⟨pieces, hpieces, rfl⟩
  rw [Lexeme.cutFrom_of_next hnext, hpieces] at hcut
  obtain rfl := (Prod.mk.inj hcut).1
  rcases Lexeme.exists_place_append Location.origin none ps _ with ⟨row, hrow⟩
  rw [hrow, Lexeme.place, Location.afterAll_append]
  exact ⟨_, List.mem_append_right _ List.mem_cons_self, rfl, rfl⟩

/-- Every token behind the place is read at that place or at a later one. -/
theorem exists_of_mem_place {row : Option Nat} {t : Token} (h : CutAt text before attached behind)
    (ht : t ∈ Lexeme.place (Location.origin.afterAll before) row
      (Lexeme.cutFrom 0 attached behind).1) :
    ∃ before' attached' c rest n, CutAt text before' attached' (c :: rest) ∧
      Lexeme.next attached' c rest = .ok (.token t.kind, n) ∧
      t.range = ⟨Location.origin.afterAll before',
        Location.origin.afterAll (before' ++ c :: rest.take n)⟩ := by
  -- the text left is shorter behind each lexeme
  induction hlength : behind.length using Nat.strong_induction_on generalizing before behind
    attached row with
  | _ length ih
  subst hlength
  cases behind with
  | nil => cases ht
  | cons c rest =>
    cases hnext : Lexeme.next attached c rest with
    | error fault =>
      rw [Lexeme.cutFrom, hnext] at ht
      cases ht
    | ok found =>
      rcases found with ⟨cls, n⟩
      have hlater := h.next hnext
      have hshort : (rest.drop n).length < (c :: rest).length := by
        rw [List.length_drop, List.length_cons]
        omega
      rw [Lexeme.cutFrom_of_next hnext, Lexeme.place, ← Location.afterAll_append] at ht
      split at ht
      · rename_i k hk
        dsimp only at hk
        subst hk
        rcases List.mem_cons.mp ht with rfl | ht
        · exact ⟨before, attached, c, rest, n, h, hnext, rfl⟩
        · exact ih _ hshort hlater ht rfl
      · exact ih _ hshort hlater ht rfl

end CutAt

/-- Every token of a text is read at a place between its lexemes, where it stands. -/
theorem Token.exists_cutAt {text : List Char} {ts : List Token} {t : Token}
    (hscan : Token.scan text = .ok ts) (ht : t ∈ ts) :
    ∃ before attached c rest n, CutAt text before attached (c :: rest) ∧
      Lexeme.next attached c rest = .ok (.token t.kind, n) ∧
      t.range = ⟨Location.origin.afterAll before,
        Location.origin.afterAll (before ++ c :: rest.take n)⟩ := by
  rcases Token.exists_of_scan hscan with ⟨pieces, hpieces, rfl⟩
  have hstart : pieces = (Lexeme.cutFrom 0 none text).1 := (congrArg Prod.fst hpieces).symm
  rw [hstart] at ht
  exact CutAt.start.exists_of_mem_place ht

end Terse
