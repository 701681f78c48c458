import Terse.Proofs.Token.Excerpt

/-!
# What stands between tokens

A location between two lexemes cuts a text without cutting a lexeme. The text between two such
locations has, on its own, the tokens that stand between them; so a gap in which one token stands
is a text of that token, with blanks and comments around it.
-/

namespace Terse

open Token (Kind)

/-- The text has one token, of this kind, and apart from it only blanks and comments. -/
def Token.Kind.AloneIn (kind : Kind) (text : String) : Prop :=
  ∃ t, Token.scan text.toList = .ok [t] ∧ t.kind = kind

/-- The token is the same whatever stands around it: it is no field read from what stands before
it, and no minus sign. -/
def Token.Kind.IsFixed (kind : Kind) : Prop :=
  (∀ f, kind ≠ .dotField f) ∧ kind ≠ .operator "-" ∧ kind ≠ .minus

namespace Lexeme

variable {text : List Char} {ps : List Piece} {before own after : List Token} {t : Token}
  {a b : Location}

/-- The location stands between lexemes, behind those of the tokens. -/
def CutsAt (ps : List Piece) (before : List Token) (l : Location) : Prop :=
  ∃ as bs, ps = as ++ bs ∧ as.filterMap (·.kind.token?) = before.map (·.kind) ∧
    l = Location.origin.afterAll (join as)

/-- A token starts and ends between lexemes. -/
theorem cutsAt_token (h : place Location.origin none ps = before ++ t :: after) :
    CutsAt ps before t.range.start ∧ CutsAt ps (before ++ [t]) t.range.stop := by
  obtain ⟨as, p, bs, rfl, hbefore, hp, hrange, -⟩ := place_eq_append_cons h
  have hkinds : as.filterMap (·.kind.token?) = before.map (·.kind) := by
    rw [hbefore, kinds_place]
  constructor
  · exact ⟨as, p :: bs, rfl, hkinds, by rw [hrange]⟩
  · refine ⟨as ++ [p], bs, by simp, ?_, ?_⟩
    · simp [hkinds, token?_of_kind hp]
    · rw [hrange, join_append]
      simp [join]

/-- Tokens that stand together start and end between lexemes. -/
theorem cutsAt_extent (h : place Location.origin none ps = before ++ (own ++ after))
    (hne : own ≠ []) :
    CutsAt ps before (extent own).start ∧ CutsAt ps (before ++ own) (extent own).stop := by
  constructor
  · obtain ⟨t, rest, rfl⟩ := List.exists_cons_of_ne_nil hne
    exact (cutsAt_token h).1
  · rcases List.eq_nil_or_concat own with rfl | ⟨init, t, rfl⟩
    · exact absurd rfl hne
    · have hsplit : place Location.origin none ps = (before ++ init) ++ t :: after := by
        rw [h]
        simp
      have hstop := (cutsAt_token hsplit).2
      simpa [extent] using hstop

/-- Between the locations on both sides of a token stand lexemes of which it is the only token. -/
theorem exists_between (ha : CutsAt ps before a) (hb : CutsAt ps (before ++ [t]) b) :
    ∃ as ms bs, ps = as ++ (ms ++ bs) ∧ ms.filterMap (·.kind.token?) = [t.kind] ∧
      a = Location.origin.afterAll (join as) ∧ b = Location.origin.afterAll (join as ++ join ms) := by
  obtain ⟨as, bs, hps, hbefore, rfl⟩ := ha
  obtain ⟨as', bs', hps', hbehind, rfl⟩ := hb
  have hprefix : as <+: ps := ⟨bs, hps.symm⟩
  have hprefix' : as' <+: ps := ⟨bs', hps'.symm⟩
  rcases List.prefix_or_prefix_of_prefix hprefix hprefix' with ⟨ms, rfl⟩ | ⟨ms, rfl⟩
  · refine ⟨as, ms, bs', by rw [hps', List.append_assoc], ?_, rfl, by rw [join_append]⟩
    rw [List.filterMap_append, hbefore, List.map_append] at hbehind
    exact List.append_cancel_left hbehind
  · -- fewer lexemes do not have one token more
    exfalso
    have hlength := congrArg List.length hbefore
    rw [List.filterMap_append, hbehind] at hlength
    simp at hlength

/-- Lexemes whose only token does not depend on what stands around it are cut from their own
text. -/
theorem scan_join_of_fixed {as ms bs : List Piece} (hcut : cut text = (as ++ (ms ++ bs), none))
    (hms : ms.filterMap (·.kind.token?) = [t.kind]) (ht : t.kind.IsFixed) :
    ∃ u, Token.scan (join ms) = .ok [u] ∧ u.kind = t.kind := by
  have hkind : ∀ p ∈ ms, ∀ k, p.kind = .token k → k = t.kind := by
    intro p hp k hk
    have hmem : k ∈ ms.filterMap (·.kind.token?) :=
      List.mem_filterMap.mpr ⟨p, hp, token?_of_kind hk⟩
    rw [hms] at hmem
    exact List.mem_singleton.mp hmem
  obtain ⟨p, qs, rfl⟩ : ∃ p qs, ms = p :: qs := by
    apply List.exists_cons_of_ne_nil
    rintro rfl
    simp at hms
  -- a fixed token does not depend on the token before it, so these pieces cut alike on their own
  have hown : cut (join (p :: qs)) = (p :: qs, none) := by
    refine cut_middle hcut ?_ ?_ ?_
    · intro f hf
      exact ht.1 f (hkind p List.mem_cons_self _ hf).symm
    · intro hminus
      exact ht.2.1 (hkind p List.mem_cons_self _ hminus).symm
    · intro q hq hminus
      exact ht.2.2 (hkind q (List.mem_of_getLast? hq) _ hminus).symm
  have hplaced : (place Location.origin none (p :: qs)).map (·.kind) = [t.kind] :=
    (kinds_place _ _).trans hms
  obtain ⟨u, hu⟩ : ∃ u, place Location.origin none (p :: qs) = [u] := by
    apply List.length_eq_one_iff.mp
    simpa using congrArg List.length hplaced
  rw [hu] at hplaced
  refine ⟨u, ?_, by simpa using hplaced⟩
  rw [Token.scan, hown]
  exact congrArg Except.ok hu

/-- The text between two locations that a token stands between has this token only. -/
theorem aloneIn_extract (hcut : cut text = (ps, none)) (ha : CutsAt ps before a)
    (hb : CutsAt ps (before ++ [t]) b) (ht : t.kind.IsFixed) :
    t.kind.AloneIn ((SourceText.mk text).extract ⟨a, b⟩) := by
  obtain ⟨as, ms, bs, rfl, hms, rfl, rfl⟩ := exists_between ha hb
  have hjoin := join_cutFrom hcut
  rw [List.drop_zero, join_append, join_append] at hjoin
  have hextract := SourceText.extract_afterAll (s := SourceText.mk text) hjoin.symm
  obtain ⟨u, hu, hkind⟩ := scan_join_of_fixed hcut hms ht
  refine ⟨u, ?_, hkind⟩
  rw [hextract, String.toList_ofList, hu]

end Lexeme

end Terse
