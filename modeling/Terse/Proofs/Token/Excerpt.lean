import Terse.Proofs.Token.Lookahead
import Terse.Proofs.Token.Tidy

/-!
# Excerpts of a text

The text from the start of one token to the end of another one, taken on its own, has the same
tokens as it has in its place, unless its first or its last token depends on what stands around it.
-/

namespace Terse

open Token (Kind)

namespace Lexeme

variable {attached : Option Kind} {cs text : List Char} {p : Piece} {ps qs as bs : List Piece}

/-! ## Lexemes -/

theorem cutFrom_skip (skip : Nat) :
    cutFrom skip attached cs = cutFrom 0 attached (cs.drop skip) := by
  induction cs generalizing skip with
  | nil => simp [cutFrom]
  | cons c cs ih =>
    cases skip with
    | zero => rfl
    | succ skip =>
      rw [cutFrom, ih]
      rfl

theorem cutFrom_nil_iff : cutFrom 0 attached cs = ([], none) ↔ cs = [] := by
  constructor
  · intro h
    cases cs with
    | nil => rfl
    | cons c cs =>
      rw [cutFrom] at h
      split at h <;> cases h
  · rintro rfl
    rw [cutFrom]

/-- A text that is cut to its end starts with its first lexeme, and the rest is cut in its turn. -/
theorem cutFrom_cons_iff : cutFrom 0 attached cs = (p :: ps, none) ↔
    ∃ c rest n, cs = c :: rest ∧ next attached c rest = .ok (p.kind, n) ∧
      p.text = c :: rest.take n ∧ cutFrom 0 p.kind.token? (rest.drop n) = (ps, none) := by
  constructor
  · intro h
    cases cs with
    | nil =>
      rw [cutFrom] at h
      cases h
    | cons c rest =>
      rw [cutFrom] at h
      split at h
      · cases h
      · rename_i cls n hnext
        rw [cutFrom_skip] at h
        cases hcut : cutFrom 0 cls.token? (rest.drop n) with
        | mk pieces fault =>
          rw [hcut] at h
          cases h
          exact ⟨c, rest, n, rfl, hnext, rfl, hcut⟩
  · rintro ⟨c, rest, n, rfl, hnext, htext, hcut⟩
    rw [cutFrom, hnext]
    dsimp only
    rw [cutFrom_skip, hcut, ← htext]

/-- The lexemes behind others are cut from their own text, with one of the others before them. -/
theorem cutFrom_right (h : cutFrom 0 attached cs = (as ++ bs, none)) :
    ∃ attached', cutFrom 0 attached' (join bs) = (bs, none) := by
  induction as generalizing attached cs with
  | nil =>
    rw [List.nil_append] at h
    exact ⟨attached, by rwa [join_cutFrom h]⟩
  | cons p as ih =>
    rcases cutFrom_cons_iff.mp h with ⟨c, rest, n, rfl, -, -, hcut⟩
    exact ih hcut

/-- The lexemes before others are cut from their own text. -/
theorem cutFrom_left (h : cutFrom 0 attached cs = (as ++ bs, none))
    (hlast : ∀ p, as.getLast? = some p → p.kind ≠ .token .minus) :
    cutFrom 0 attached (join as) = (as, none) := by
  induction as generalizing attached cs with
  | nil => exact cutFrom_nil_iff.mpr rfl
  | cons p as ih =>
    rcases cutFrom_cons_iff.mp h with ⟨c, rest, n, rfl, hnext, htext, hcut⟩
    have hrest : rest.drop n = join as ++ join bs := (join_append as bs ▸ join_cutFrom hcut).symm
    have htake : rest.take (n + (join as).length) = rest.take n ++ join as := by
      rw [List.take_add, hrest, List.take_left]
    refine cutFrom_cons_iff.mpr ⟨c, rest.take (n + (join as).length), n, ?_, ?_, ?_, ?_⟩
    · rw [join_cons, htext, htake]
      rfl
    · refine next_take hnext (Nat.le_add_right _ _) fun hminus => ?_
      -- a negation is not the last one, and what follows it is not empty
      cases as with
      | nil => exact absurd hminus (hlast p rfl)
      | cons q as =>
        have := List.length_pos_iff.mpr (text_ne_nil_of_cutFrom hcut q List.mem_cons_self)
        rw [join_cons, List.length_append]
        omega
    · rw [List.take_take, Nat.min_eq_left (Nat.le_add_right _ _), htext]
    · rw [List.drop_take, hrest, Nat.add_sub_cancel_left, List.take_left]
      refine ih hcut fun q hq => hlast q ?_
      cases as with
      | nil => cases hq
      | cons q' as => rw [List.getLast?_cons_cons, hq]

/-- Lexemes in the middle of a text are cut from their own text, unless the first one depends on
what stands before it or the last one on what follows. -/
theorem cut_middle (h : cut text = (as ++ (p :: ps ++ bs), none))
    (hfield : ∀ f, p.kind ≠ .token (.dotField f)) (hsubtraction : p.kind ≠ .token (.operator "-"))
    (hlast : ∀ q, (p :: ps).getLast? = some q → q.kind ≠ .token .minus) :
    cut (join (p :: ps)) = (p :: ps, none) := by
  rcases cutFrom_right h with ⟨attached, hcut⟩
  rcases cutFrom_cons_iff.mp (cutFrom_left hcut hlast) with ⟨c, rest, n, htext, hnext, hp, hrest⟩
  exact cutFrom_cons_iff.mpr ⟨c, rest, n, htext, next_none hnext hfield hsubtraction, hp, hrest⟩

/-! ## Tokens -/

theorem token?_of_kind {k : Kind} (h : p.kind = .token k) : p.kind.token? = some k := by
  rw [h]
  rfl

theorem token?_eq_none (h : ∀ k, p.kind = .token k → False) : p.kind.token? = none := by
  cases hkind : p.kind with
  | token k => exact absurd hkind (h k)
  | _ => rfl

/-- What the tokens among lexemes are does not depend on where they stand. -/
theorem kinds_place (here : Location) (row : Option Nat) :
    (place here row ps).map (·.kind) = ps.filterMap (·.kind.token?) := by
  induction ps generalizing here row with
  | nil => rfl
  | cons p ps ih =>
    rw [place]
    split
    · rename_i k hk
      rw [List.map_cons, ih, List.filterMap_cons, token?_of_kind hk]
    · rename_i hk
      rw [ih, List.filterMap_cons, token?_eq_none hk]

/-- Tokens that stand together come from lexemes that stand together, of which the first and the
last one are tokens. -/
theorem exists_pieces {here : Location} {row : Option Nat} {before own after : List Token}
    (h : place here row ps = before ++ (own ++ after)) (hne : own ≠ []) :
    ∃ as p qs bs q, ps = as ++ (p :: qs ++ bs) ∧ p.kind = .token (own.head hne).kind ∧
      (p :: qs).getLast? = some q ∧ q.kind = .token (own.getLast hne).kind ∧
      (p :: qs).filterMap (·.kind.token?) = own.map (·.kind) ∧
      extent own = ⟨here.afterAll (join as), here.afterAll (join as ++ join (p :: qs))⟩ := by
  rcases List.exists_cons_of_ne_nil hne with ⟨t, us, rfl⟩
  rcases place_eq_append_cons h with ⟨as, p, ds, rfl, -, hp, hrange, hafter⟩
  have hptoken := token?_of_kind hp
  rcases List.eq_nil_or_concat us with rfl | ⟨init, u, hus⟩
  · -- a single token is the first and the last one
    refine ⟨as, p, [], ds, p, rfl, hp, rfl, hp, by simp [hptoken], ?_⟩
    rw [extent_singleton, hrange, join_cons]
    simp [join]
  · rw [List.concat_eq_append] at hus
    subst hus
    have hlater : place t.range.stop (some t.range.stop.row) ds = init ++ u :: after := by
      rw [← hafter]
      simp
    rcases place_eq_append_cons hlater with ⟨cs, q, bs, rfl, hinit, hq, hrange', -⟩
    have hlast : (t :: (init ++ [u])).getLast? = some u := by
      rw [← List.cons_append, List.getLast?_append]
      rfl
    have hu := Option.some.inj ((List.getLast?_eq_some_getLast hne).symm.trans hlast)
    refine ⟨as, p, cs ++ [q], bs, q, by simp, hp, ?_, by rw [hq, hu], ?_, ?_⟩
    · rw [← List.cons_append, List.getLast?_append]
      rfl
    · have hkinds : init.map (·.kind) = cs.filterMap (·.kind.token?) := by
        rw [hinit, kinds_place]
      simp [hptoken, token?_of_kind hq, hkinds]
    · have hextent : extent (t :: (init ++ [u])) = ⟨t.range.start, u.range.stop⟩ :=
        extent_append (List.cons_ne_nil t init) (List.cons_ne_nil u [])
      rw [hextent, hrange', hrange]
      simp [join, Location.afterAll_append]

end Lexeme

/-- The text between two places that are reached by counting. -/
theorem SourceText.extract_afterAll {s : SourceText} {before own after : List Char}
    (h : s.chars = before ++ (own ++ after)) :
    s.extract ⟨Location.origin.afterAll before, Location.origin.afterAll (before ++ own)⟩ =
      String.ofList own := by
  have hstop : s.index? (Location.origin.afterAll (before ++ own)) = some (before ++ own).length :=
    index?_afterAll (h.trans (List.append_assoc _ _ _).symm)
  have htake : (before ++ (own ++ after)).take (before ++ own).length = before ++ own := by
    rw [← List.append_assoc, List.take_left]
  rw [extract, slice?, index?_afterAll h, hstop]
  dsimp only
  rw [if_pos (by simp), h, htake, List.drop_left]
  rfl

/-- The text of tokens that stand together has these tokens, up to their places, when its first
token could stand at the start of a text and its last one at the end. -/
theorem Token.scan_extract {text : List Char} {ts own : List Token} (h : scan text = .ok ts)
    (hown : own <:+: ts) (hne : own ≠ [])
    (hfield : ∀ f, (own.head hne).kind ≠ .dotField f)
    (hsubtraction : (own.head hne).kind ≠ .operator "-")
    (hlast : (own.getLast hne).kind ≠ .minus) :
    ∃ us, scan ((SourceText.mk text).extract (extent own)).toList = .ok us ∧
      us.map (·.kind) = own.map (·.kind) := by
  rcases hown with ⟨before, after, rfl⟩
  rcases exists_of_scan h with ⟨pieces, hcut, hplace⟩
  rw [List.append_assoc] at hplace
  rcases Lexeme.exists_pieces hplace hne with
    ⟨as, p, qs, bs, q, rfl, hp, hq, hqk, hkinds, hextent⟩
  have hjoin := Lexeme.join_cutFrom hcut
  rw [List.drop_zero, Lexeme.join_append, Lexeme.join_append] at hjoin
  have hcut' := Lexeme.cut_middle hcut (fun f => by rw [hp]; simpa using hfield f)
    (by rw [hp]; simpa using hsubtraction) (by
      rw [hq]
      rintro _ ⟨⟩
      rw [hqk]
      simpa using hlast)
  refine ⟨Lexeme.place Location.origin none (p :: qs), ?_, (Lexeme.kinds_place _ _).trans hkinds⟩
  rw [hextent, SourceText.extract_afterAll hjoin.symm, String.toList_ofList, scan, hcut']

end Terse
