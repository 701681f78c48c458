import Terse.Proofs.Token.Regular

/-!
# Tidy tokens

The tokens of a text stand in their places one after the other, and each is as the scanner leaves
it. What spans several of them reaches from the start of the first to the end of the last.
-/

namespace Terse

open Token (Kind)

variable {place : Location → Prop}

/-! ## Tokens and lexemes -/

namespace Lexeme

theorem join_append (ps qs : List Piece) : join (ps ++ qs) = join ps ++ join qs :=
  List.flatMap_append

/-- A token among others comes from a lexeme among others. -/
theorem place_eq_append_cons {here : Location} {row : Option Nat} {ps : List Piece}
    {before after : List Token} {t : Token}
    (h : Lexeme.place here row ps = before ++ t :: after) :
    ∃ as p bs, ps = as ++ p :: bs ∧ before = Lexeme.place here row as ∧ p.kind = .token t.kind ∧
      t.range = ⟨here.afterAll (join as), here.afterAll (join as ++ p.text)⟩ ∧
      after = Lexeme.place t.range.stop (some t.range.stop.row) bs := by
  induction ps generalizing here row before with
  | nil => simp [Lexeme.place] at h
  | cons p ps ih =>
    simp only [Lexeme.place] at h
    split at h
    · rename_i kind hkind
      cases before with
      | nil =>
        rw [List.nil_append] at h
        cases h
        exact ⟨[], p, ps, rfl, rfl, hkind, rfl, rfl⟩
      | cons u before =>
        rw [List.cons_append, List.cons.injEq] at h
        rcases h with ⟨hu, h⟩
        rcases ih h with ⟨as, q, bs, rfl, hbefore, hq, hrange, hafter⟩
        refine ⟨p :: as, q, bs, rfl, ?_, hq, ?_, hafter⟩
        · simp only [Lexeme.place, hkind, ← hu, hbefore]
        · simp only [join_cons, List.append_assoc, Location.afterAll_append, hrange]
    · rename_i hkind
      -- a skipped piece leaves no token, so it goes to the pieces before
      rcases ih h with ⟨as, q, bs, rfl, hbefore, hq, hrange, hafter⟩
      refine ⟨p :: as, q, bs, rfl, ?_, hq, ?_, hafter⟩
      · simp only [Lexeme.place]
        exact hbefore
      · simp only [join_cons, List.append_assoc, Location.afterAll_append, hrange]

end Lexeme

/-! ## Tokens of a text -/

/-- The token is as the scanner leaves it. -/
structure Token.IsSound (place : Location → Prop) (t : Token) : Prop where
  proper : t.range.Proper place
  regular : t.kind.IsRegular
  /-- The name behind the point of a field has its own place. -/
  field : ∀ f, t.kind = .dotField f → Range.Proper place ⟨t.range.start.after '.', t.range.stop⟩

/-- The tokens follow one another, and each is as the scanner leaves it. -/
structure Tidy (place : Location → Prop) (ts : List Token) : Prop where
  inOrder : ts.Pairwise fun a b => a.range.stop ≤ b.range.start
  sound : ∀ t ∈ ts, t.IsSound place

theorem Ahead.inOrder {start : Location} {ts : List Token} (h : Ahead place start ts) :
    (∀ t ∈ ts, start ≤ t.range.start) ∧
      ts.Pairwise fun a b => a.range.stop ≤ b.range.start := by
  induction ts generalizing start with
  | nil => simp
  | cons t ts ih =>
    rcases h with ⟨hstart, hproper, hts⟩
    rcases ih hts with ⟨hall, hpairwise⟩
    refine ⟨?_, List.pairwise_cons.mpr ⟨hall, hpairwise⟩⟩
    intro u hu
    rcases List.mem_cons.mp hu with rfl | hu
    · exact hstart
    · exact hstart.trans (hproper.le.trans (hall u hu))

/-- Tokens come from a text that is cut to its end. -/
theorem Token.exists_of_scan {text : List Char} {ts : List Token} (h : Token.scan text = .ok ts) :
    ∃ pieces, Lexeme.cut text = (pieces, none) ∧ Lexeme.place Location.origin none pieces = ts := by
  unfold scan at h
  split at h
  · rename_i pieces hcut
    exact ⟨pieces, hcut, Except.ok.inj h⟩
  · cases h

/-- What a text starts with ends at a place of it. -/
theorem SourceText.hasPlace_afterAll {text cs : List Char} (rest : List Char)
    (h : text = cs ++ rest) :
    (SourceText.mk text).HasPlace (Location.origin.afterAll cs) := by
  unfold HasPlace
  rw [index?_afterAll h]
  rfl

/-- The tokens of a text are tidy. -/
theorem Token.tidy_scan {text : List Char} {ts : List Token} (h : Token.scan text = .ok ts) :
    Tidy (SourceText.mk text).HasPlace ts := by
  refine ⟨(Token.ahead_scan h).inOrder.2, fun t ht => ?_⟩
  rcases Token.exists_of_scan h with ⟨pieces, hcut, hplace⟩
  rcases List.append_of_mem ht with ⟨before, after, rfl⟩
  rcases Lexeme.place_eq_append_cons hplace with ⟨as, p, bs, rfl, -, hkind, hrange, -⟩
  have hjoin := Lexeme.join_cutFrom hcut
  rw [List.drop_zero, Lexeme.join_append, Lexeme.join_cons] at hjoin
  rcases (Lexeme.cutFrom_front hcut).1 p (by simp) with ⟨attached, c, rest, n, hnext, htext⟩
  rw [hkind] at hnext
  have hstart := SourceText.hasPlace_afterAll _ hjoin.symm
  have hstop : (SourceText.mk text).HasPlace
      (Location.origin.afterAll (Lexeme.join as ++ p.text)) :=
    SourceText.hasPlace_afterAll (Lexeme.join bs) (by rw [← hjoin, List.append_assoc])
  refine ⟨?_, Lexeme.next_regular hnext, ?_⟩
  · rw [hrange]
    exact ⟨Location.afterAll_lt_append _ _ (by simp [htext]), hstart, hstop⟩
  · intro f hf
    rw [hf] at hnext
    rcases Lexeme.next_dotField hnext with ⟨rfl, hname⟩
    -- the name starts behind the point, and it is not empty
    have hpoint : (Location.origin.afterAll (Lexeme.join as)).after '.' =
        Location.origin.afterAll (Lexeme.join as ++ ['.']) := by
      rw [Location.afterAll_append]
      rfl
    have hname' : Location.origin.afterAll (Lexeme.join as ++ p.text) =
        (Location.origin.afterAll (Lexeme.join as ++ ['.'])).afterAll (rest.take n) := by
      rw [← Location.afterAll_append, htext, List.append_assoc]
      rfl
    rw [hrange]
    refine ⟨?_, ?_, hstop⟩
    · rw [hpoint, hname']
      exact Location.lt_afterAll _ hname
    · rw [hpoint]
      refine SourceText.hasPlace_afterAll (rest.take n ++ Lexeme.join bs) ?_
      rw [← hjoin, htext]
      simp

namespace Tidy

variable {ts us : List Token} {t : Token}

/-- The two parts of tidy tokens are tidy. -/
theorem of_append (h : Tidy place (ts ++ us)) : Tidy place ts ∧ Tidy place us := by
  have hpairwise := List.pairwise_append.mp h.inOrder
  exact ⟨⟨hpairwise.1, fun t ht => h.sound t (List.mem_append_left us ht)⟩,
    ⟨hpairwise.2.1, fun t ht => h.sound t (List.mem_append_right ts ht)⟩⟩

theorem left (h : Tidy place (ts ++ us)) : Tidy place ts := h.of_append.1

theorem right (h : Tidy place (ts ++ us)) : Tidy place us := h.of_append.2

theorem tail (h : Tidy place (t :: ts)) : Tidy place ts := by
  rw [← List.singleton_append] at h
  exact h.right

theorem head (h : Tidy place (t :: ts)) : t.IsSound place := h.sound t List.mem_cons_self

/-- Tokens in the midst of tidy tokens are tidy. -/
theorem of_isInfix (h : Tidy place ts) (hus : us <:+: ts) : Tidy place us := by
  rcases hus with ⟨before, after, rfl⟩
  exact h.left.right

end Tidy

/-! ## Extents -/

/-- The range from the start of the first token to the end of the last one. -/
def extent (ts : List Token) : Range :=
  ⟨(ts.head?.map (·.range.start)).getD .origin, (ts.getLast?.map (·.range.stop)).getD .origin⟩

@[simp] theorem extent_singleton (t : Token) : extent [t] = t.range := rfl

/-- The extent of two rows of tokens runs from the start of the first to the end of the second. -/
theorem extent_append {ts us : List Token} (hts : ts ≠ []) (hus : us ≠ []) :
    extent (ts ++ us) = ⟨(extent ts).start, (extent us).stop⟩ := by
  rcases List.exists_cons_of_ne_nil hts with ⟨t, ts, rfl⟩
  have hlast : (t :: ts ++ us).getLast? = us.getLast? := by
    rw [List.getLast?_append, List.getLast?_eq_some_getLast hus, Option.some_or]
  unfold extent
  rw [hlast]
  rfl

theorem exists_extent_start {ts : List Token} (hne : ts ≠ []) :
    ∃ t ∈ ts, (extent ts).start = t.range.start := by
  rcases List.exists_cons_of_ne_nil hne with ⟨t, ts, rfl⟩
  exact ⟨t, List.mem_cons_self, rfl⟩

theorem exists_extent_stop {ts : List Token} (hne : ts ≠ []) :
    ∃ t ∈ ts, (extent ts).stop = t.range.stop :=
  ⟨ts.getLast hne, List.getLast_mem hne, by simp [extent, List.getLast?_eq_some_getLast hne]⟩

namespace Tidy

variable {ts us vs own : List Token} {t : Token}

/-- No token starts before the extent of tidy tokens. -/
theorem start_le (h : Tidy place ts) (ht : t ∈ ts) : (extent ts).start ≤ t.range.start := by
  rcases List.exists_cons_of_ne_nil (List.ne_nil_of_mem ht) with ⟨u, ts, rfl⟩
  rcases List.mem_cons.mp ht with rfl | ht
  · exact le_rfl
  · exact h.head.proper.le.trans (List.rel_of_pairwise_cons h.inOrder ht)

/-- No token stops behind the extent of tidy tokens. -/
theorem le_stop (h : Tidy place ts) (ht : t ∈ ts) : t.range.stop ≤ (extent ts).stop := by
  rcases List.eq_nil_or_concat ts with rfl | ⟨init, u, hts⟩
  · cases ht
  · rw [List.concat_eq_append] at hts
    subst hts
    have hlast : (extent (init ++ [u])).stop = u.range.stop := by simp [extent]
    rw [hlast]
    rcases List.mem_append.mp ht with ht | ht
    · have hle := (List.pairwise_append.mp h.inOrder).2.2 t ht u (List.mem_singleton_self u)
      exact hle.trans (h.right.head.proper.le)
    · rw [List.mem_singleton.mp ht]

/-- Tokens that stand later start behind the end of what stands before them. -/
theorem extent_le (h : Tidy place (ts ++ us)) (hts : ts ≠ []) (hown : own ⊆ us) (hne : own ≠ []) :
    (extent ts).stop ≤ (extent own).start := by
  rcases exists_extent_stop hts with ⟨t, ht, hstop⟩
  rcases exists_extent_start hne with ⟨u, hu, hstart⟩
  rw [hstop, hstart]
  exact (List.pairwise_append.mp h.inOrder).2.2 t ht u (hown hu)

/-- Some of the tokens reach no further than all of them. -/
theorem extent_within (h : Tidy place ts) (hown : own ⊆ ts) (hne : own ≠ []) :
    (extent ts).start ≤ (extent own).start ∧ (extent own).stop ≤ (extent ts).stop := by
  rcases exists_extent_start hne with ⟨t, ht, hstart⟩
  rcases exists_extent_stop hne with ⟨u, hu, hstop⟩
  rw [hstart, hstop]
  exact ⟨h.start_le (hown ht), h.le_stop (hown hu)⟩

/-- The extent of tidy tokens holds characters. -/
theorem extent_proper (h : Tidy place ts) (hne : ts ≠ []) : (extent ts).Proper place := by
  rcases exists_extent_start hne with ⟨t, ht, hstart⟩
  rcases exists_extent_stop hne with ⟨u, hu, hstop⟩
  have hlt := (h.sound t ht).proper.lt.trans_le (h.le_stop ht)
  rw [← hstart] at hlt
  refine ⟨hlt, ?_, ?_⟩
  · rw [hstart]
    exact (h.sound t ht).proper.start
  · rw [hstop]
    exact (h.sound u hu).proper.stop

/-- What reaches from the first tokens to the last ones spans the tokens between them. -/
theorem merge_extent (h : Tidy place (ts ++ (us ++ vs))) (hts : ts ≠ []) (hvs : vs ≠ []) :
    (extent ts).merge (extent vs) = extent (ts ++ (us ++ vs)) := by
  have hne : us ++ vs ≠ [] := by simp [hvs]
  have hstop : (extent (us ++ vs)).stop = (extent vs).stop := by
    by_cases hus : us = []
    · rw [hus, List.nil_append]
    · rw [extent_append hus hvs]
  have hgap := h.extent_le hts (List.subset_append_right us vs) hvs
  rw [(h.left.extent_proper hts).merge_eq (h.right.right.extent_proper hvs) hgap,
    extent_append hts hne, hstop]

/-- The range around two neighbouring extents is the extent of both. -/
theorem merge_adjacent (h : Tidy place (ts ++ us)) (hts : ts ≠ []) (hus : us ≠ []) :
    (extent ts).merge (extent us) = extent (ts ++ us) := by
  rw [← List.nil_append us] at h
  exact h.merge_extent hts hus

/-- A token reaches to the end of the tokens behind it when it reaches to the last ones. -/
theorem merge_ends {t : Token} (us own : List Token) (h : Tidy place (t :: ts)) (hus : us <+: ts)
    (hown : own <:+ us) (hne : own ≠ []) : t.range.merge (extent own) = extent (t :: us) := by
  rcases hus with ⟨rest, rfl⟩
  rcases hown with ⟨before, rfl⟩
  have hall : t :: (before ++ own ++ rest) = ([t] ++ (before ++ own)) ++ rest := by simp
  rw [hall] at h
  exact h.left.merge_extent (by simp) hne

end Tidy
end Terse
