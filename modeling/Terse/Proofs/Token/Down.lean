import Terse.Proofs.Token.Ahead
import Terse.Proofs.Tree.Down

/-!
# Tokens further down

Empty rows in front of a text are blanks of their own, so the text is cut into the same lexemes
behind them. Their tokens stand as many rows further down.
-/

namespace Terse

/-- The token, `k` rows further down. -/
def Token.down (k : Nat) (t : Token) : Token := { t with range := t.range.down k }

namespace Lexeme

/-- An empty row. -/
def emptyRow : Piece := ⟨.blank, ['\n']⟩

theorem cut_emptyRows (k : Nat) (text : List Char) : cut (List.replicate k '\n' ++ text) =
    (List.replicate k emptyRow ++ (cut text).1, (cut text).2) := by
  induction k with
  | zero => rfl
  | succ k ih =>
    have hblank : next none '\n' (List.replicate k '\n' ++ text) = .ok (.blank, 0) := rfl
    rw [List.replicate_succ, List.cons_append, cut, cutFrom, hblank]
    dsimp only [Class.token?]
    rw [← cut, ih]
    rfl

theorem join_emptyRows (k : Nat) (ps : List Piece) :
    join (List.replicate k emptyRow ++ ps) = List.replicate k '\n' ++ join ps := by
  induction k with
  | zero => rfl
  | succ k ih =>
    rw [List.replicate_succ, List.cons_append, join_cons, ih]
    rfl

/-- Behind empty rows comes the start of a row further down. -/
theorem afterAll_emptyRows (k : Nat) :
    Location.origin.afterAll (List.replicate k '\n') = Location.origin.down k := by
  induction k with
  | zero => rfl
  | succ k ih =>
    rw [List.replicate_succ', Location.afterAll_append, ih]
    rfl

theorem place_emptyRows (k : Nat) (here : Location) (row : Option Nat) (ps : List Piece) :
    place here row (List.replicate k emptyRow ++ ps) =
      place (here.afterAll (List.replicate k '\n')) row ps := by
  induction k generalizing here with
  | zero => rfl
  | succ k ih =>
    rw [List.replicate_succ, List.cons_append, place]
    exact ih _

/-- Tokens that are placed further down are the same tokens, further down. -/
theorem place_down (k : Nat) (here : Location) (row : Option Nat) (ps : List Piece) :
    place (here.down k) (row.map (· + k)) ps = (place here row ps).map (Token.down k) := by
  induction ps generalizing here row with
  | nil => rfl
  | cons p ps ih =>
    rw [place, place, Location.afterAll_down]
    cases p.kind with
    | token kind =>
      dsimp only
      have hrow : (row.map (· + k) != some ((here.afterAll p.text).down k).row) =
          (row != some (here.afterAll p.text).row) := by
        cases row <;> simp [Location.down, bne]
      rw [hrow, List.map_cons]
      exact congrArg _ (ih _ (some _))
    | _ => exact ih _ row

end Lexeme

/-- Behind empty rows the same tokens are found, further down, or the same fault is. -/
theorem Token.scan_emptyRows (k : Nat) (text : List Char) :
    scan (List.replicate k '\n' ++ text) = match scan text with
      | .ok ts => .ok (ts.map (Token.down k))
      | .error (location, fault) => .error (location.down k, fault) := by
  rw [scan, scan, Lexeme.cut_emptyRows]
  rcases Lexeme.cut text with ⟨pieces, fault⟩
  cases fault with
  | none =>
    dsimp only
    rw [Lexeme.place_emptyRows, Lexeme.afterAll_emptyRows]
    exact congrArg _ (Lexeme.place_down k Location.origin none pieces)
  | some fault =>
    dsimp only
    rw [Lexeme.join_emptyRows, Location.afterAll_append, Lexeme.afterAll_emptyRows,
      Location.afterAll_down]

end Terse
