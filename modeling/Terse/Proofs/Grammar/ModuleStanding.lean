import Terse.Proofs.Grammar.ExprStanding
import Terse.Proofs.Grammar.Module
import Terse.Proofs.Grammar.Nested

/-!
# Texts and the trees read from them

The trees that are read from a text are written with tokens of the text: a text that is a single
expression with all of them, the parameters and the body of a value with some that stand together.
So the trees are nested in the text, and the values of a module follow one another there.
-/

namespace Terse

open Token (Kind)

/-- The node is written with some of the tokens, which stand together. -/
def Node.StandsIn (n : Node) (ts : List Token) : Prop := ∃ own, own <:+: ts ∧ n.Stands own

theorem Node.StandsIn.mono {n : Node} {ts us : List Token} (h : n.StandsIn ts) (hus : ts <:+: us) :
    n.StandsIn us := by
  rcases h with ⟨own, hown, hn⟩
  exact ⟨own, hown.trans hus, hn⟩

/-- The parameters and the body of a value are written with some of the tokens. -/
structure ValueDecl.StandsIn (v : ValueDecl) (ts : List Token) : Prop where
  body : (Node.expr v.body).StandsIn ts
  params : ∀ p ∈ v.params, (Node.pattern p).StandsIn ts

theorem ValueDecl.StandsIn.mono {v : ValueDecl} {ts us : List Token} (h : v.StandsIn ts)
    (hus : ts <:+: us) : v.StandsIn us :=
  ⟨h.body.mono hus, fun p hp => (h.params p hp).mono hus⟩

/-- The values are written with tokens that follow one another. -/
def InTurn : List ValueDecl → List Token → Prop
  | [], _ => True
  | v :: vs, ts => ∃ own rest, ts = own ++ rest ∧ v.StandsIn own ∧ InTurn vs rest

namespace InTurn

variable {vs : List ValueDecl} {ts : List Token}

theorem prepend (own : List Token) (h : InTurn vs ts) : InTurn vs (own ++ ts) := by
  cases vs with
  | nil => trivial
  | cons v vs =>
    rcases h with ⟨first, rest, rfl, hv, hvs⟩
    refine ⟨own ++ first, rest, (List.append_assoc _ _ _).symm, hv.mono ?_, hvs⟩
    exact (List.suffix_append own first).isInfix

theorem standsIn (h : InTurn vs ts) {v : ValueDecl} (hv : v ∈ vs) : v.StandsIn ts := by
  induction vs generalizing ts with
  | nil => cases hv
  | cons w vs ih =>
    rcases h with ⟨own, rest, rfl, hw, hvs⟩
    rcases List.mem_cons.mp hv with rfl | hv
    · exact hw.mono (List.prefix_append own rest).isInfix
    · exact (ih hvs hv).mono (List.suffix_append own rest).isInfix

/-- The bodies of the values have nested ranges, and follow one another as well. -/
theorem between {place : Location → Prop} {start : Location} (h : InTurn vs ts)
    (hts : Tidy place ts) (hstart : ∀ t ∈ ts, start ≤ t.range.start) :
    ∃ stop, Between Expr.range (Expr.Nested place) start (vs.map ValueDecl.body) stop := by
  induction vs generalizing start ts with
  | nil => exact ⟨start, between_nil.mpr le_rfl⟩
  | cons v vs ih =>
    rcases h with ⟨own, rest, rfl, hv, hvs⟩
    rcases hv.body with ⟨tokens, htokens, hbody⟩
    have hnested := hbody.nested (hts.left.of_isInfix htokens)
    have hrange := Expr.range_of_stands hbody
    have hfirst : start ≤ v.body.range.start :=
      hbody.isBehind fun t ht => hstart t (List.mem_append_left rest (htokens.subset ht))
    have hlater : ∀ t ∈ rest, v.body.range.stop ≤ t.range.start := by
      intro t ht
      rcases exists_extent_stop hbody.ne_nil with ⟨u, hu, hstop⟩
      rw [hrange, hstop]
      exact (List.pairwise_append.mp hts.inOrder).2.2 u (htokens.subset hu) t ht
    rcases ih hvs hts.right hlater with ⟨stop, hrest⟩
    exact ⟨stop, between_cons.mpr ⟨hfirst, hnested, hrest⟩⟩

end InTurn

/-- The tree is what a text was read to, or a parameter or the body of a value in it. -/
inductive ReadFrom (text : String) : Node → Prop where
  | expr {e : Expr} (h : Expr.parse text = .ok e) : ReadFrom text (.expr e)
  | body {m : Module} {v : ValueDecl} (h : Module.parse text = .ok m) (hv : v ∈ m.values) :
      ReadFrom text (.expr v.body)
  | param {m : Module} {v : ValueDecl} {p : Pattern} (h : Module.parse text = .ok m)
      (hv : v ∈ m.values) (hp : p ∈ v.params) : ReadFrom text (.pattern p)

namespace Grammar

variable {place : Location → Prop}

theorem of_tokens {text : List Char} {ts : List Token} (h : tokens text = .ok ts) :
    Token.scan text = .ok ts := by
  unfold tokens at h
  split at h
  · cases h
    assumption
  · cases h

/-! ## Values -/

theorem parameters_standIn {fuel : Nat} {ts rest : List Token} {ps : List Pattern}
    (hts : Tidy place ts) (h : parameters fuel ts = .ok (ps, rest)) :
    ∃ own, ts = own ++ rest ∧ ∀ p ∈ ps, (Node.pattern p).StandsIn own := by
  induction fuel generalizing ts ps rest with
  | zero => exact absurd h refuse_ne_ok
  | succ fuel ih =>
    unfold parameters at h
    split at h
    · cases h
      exact ⟨[], rfl, by simp⟩
    split at h
    · exact absurd h refuse_ne_ok
    simp only [bind_ok_iff] at h
    rcases h with ⟨⟨first, ts'⟩, hfirst, ⟨others, ts''⟩, hothers, h⟩
    cases h
    rcases readAtomPattern_covers hts hfirst with ⟨own, rfl, hown, -⟩
    rcases ih hts.right hothers with ⟨more, rfl, hall⟩
    refine ⟨own ++ more, by simp, ?_⟩
    intro p hp
    rcases List.mem_cons.mp hp with rfl | hp
    · exact ⟨own, (List.prefix_append own more).isInfix, hown⟩
    · exact (hall p hp).mono (List.suffix_append own more).isInfix

theorem valueDecl_standsIn {ts rest : List Token} {v : ValueDecl} (hts : Tidy place ts)
    (h : valueDecl ts = .ok (v, rest)) : ∃ own, ts = own ++ rest ∧ v.StandsIn own := by
  simp only [valueDecl, bind_ok_iff] at h
  rcases h with ⟨⟨name, ts1⟩, hname, ⟨params, ts2⟩, hparams, ⟨body, ts3⟩, hbody, h⟩
  cases h
  rcases of_lowerName hname with ⟨t, rfl, -⟩
  rcases parameters_standIn hts.tail hparams with ⟨own, rfl, hall⟩
  -- the sign between the parameters and the body is passed over
  rcases List.tail_suffix ts2 with ⟨sign, hsign⟩
  have htail : Tidy place ts2.tail := hts.tail.right.of_isInfix (List.tail_suffix ts2).isInfix
  rcases readExpression_covers _ htail hbody with ⟨own', heq, hown', -⟩
  rw [← hsign, heq]
  refine ⟨t :: (own ++ (sign ++ own')), by simp, ⟨own', ?_, hown'⟩, ?_⟩
  · exact ⟨t :: (own ++ sign), [], by simp⟩
  · intro p hp
    exact (hall p hp).mono ⟨[t], sign ++ own', by simp⟩

theorem declaration_standsIn {ts rest : List Token} {d : Option Declaration} (hts : Tidy place ts)
    (h : declaration ts = .ok (d, rest)) :
    ∃ own, ts = own ++ rest ∧ ∀ v, d = some (.value v) → v.StandsIn own := by
  -- what is not a value leaves a part of the tokens
  have hother : ∀ {d : Option Declaration}, rest <:+ ts → (∀ v, d ≠ some (.value v)) →
      ∃ own, ts = own ++ rest ∧ ∀ v, d = some (.value v) → v.StandsIn own := by
    rintro d ⟨own, rfl⟩ hd
    exact ⟨own, rfl, fun v hv => absurd hv (hd v)⟩
  unfold declaration at h
  split at h
  · split at h
    · cases h
      exact hother (skipDeclaration_suffix _) (by simp)
    · simp only [bind_ok_iff] at h
      rcases h with ⟨⟨t, ts'⟩, ht, h⟩
      cases h
      exact hother (suffix_of_cons (leaves_customType ht)) (by simp)
  · cases h
    exact hother (skipDeclaration_suffix _) (by simp)
  · split at h
    · cases h
      exact hother (skipDeclaration_suffix _) (by simp)
    · simp only [bind_ok_iff] at h
      rcases h with ⟨⟨v, ts'⟩, hv, h⟩
      cases h
      rcases valueDecl_standsIn hts hv with ⟨own, heq, hstands⟩
      refine ⟨own, heq, ?_⟩
      rintro _ ⟨⟩
      exact hstands
  · exact absurd h refuse_ne_ok

/-- The value that is declared, if it is one. -/
def value? : Declaration → Option ValueDecl
  | .value v => some v
  | .customType _ => none

theorem declarations_inTurn {fuel : Nat} {ts : List Token} {ds : List Declaration}
    (hts : Tidy place ts) (h : declarations fuel ts = .ok ds) :
    InTurn (ds.filterMap value?) ts := by
  induction fuel generalizing ts ds with
  | zero => exact absurd h refuse_ne_ok
  | succ fuel ih =>
    unfold declarations at h
    split at h
    · cases h
      trivial
    · simp only [bind_ok_iff] at h
      rcases h with ⟨⟨first, ts'⟩, hfirst, others, hothers, h⟩
      cases h
      rcases declaration_standsIn hts hfirst with ⟨own, rfl, hstands⟩
      have hrest := ih hts.right hothers
      rw [List.filterMap_append]
      -- only a value is kept; what else stands in front moves the place to read from
      rcases first with _ | (v | t)
      · exact hrest.prepend own
      · exact ⟨own, ts', rfl, hstands v rfl, hrest⟩
      · exact hrest.prepend own

end Grammar

open Grammar

/-! ## Whole texts -/

/-- The values of a module are written with tokens of its text, in their order. -/
theorem Module.values_inTurn {text : String} {m : Module} (h : Module.parse text = .ok m) :
    ∃ ts, Token.scan text.toList = .ok ts ∧ InTurn m.values ts := by
  simp only [Module.parse, bind_ok_iff] at h
  rcases h with ⟨ts, hscan, ⟨⟨name, exposed⟩, ts1⟩, hheader, ⟨imports, ts2⟩, himports, ds, hds, h⟩
  cases h
  have hok := of_tokens hscan
  refine ⟨ts, hok, ?_⟩
  have hleft : ts2 <:+ ts := (leaves_imports _ himports).trans (leaves_header hheader)
  have hturn := declarations_inTurn ((Token.tidy_scan hok).of_isInfix hleft.isInfix) hds
  rcases hleft with ⟨before, rfl⟩
  exact hturn.prepend before

/-- A text that is a single expression is used up: the expression is written with all its tokens. -/
theorem Expr.parse_stands {text : String} {e : Expr} (h : Expr.parse text = .ok e) :
    ∃ ts, Token.scan text.toList = .ok ts ∧ (Node.expr e).Stands ts := by
  simp only [Expr.parse, bind_ok_iff] at h
  rcases h with ⟨ts, hscan, ⟨e', rest⟩, hread, h⟩
  have hok := of_tokens hscan
  have htidy := Token.tidy_scan hok
  rcases readExpression_covers _ htidy hread with ⟨own, rfl, hown, -⟩
  split at h
  · cases h
  · rename_i hnone
    cases h
    refine ⟨own ++ rest, hok, ?_⟩
    -- a token that is left starts behind the expression, so it would have been found
    have hrest : rest = [] := by
      by_contra hne
      rcases List.exists_cons_of_ne_nil hne with ⟨t, rest, rfl⟩
      have hle := htidy.extent_le hown.ne_nil (List.Subset.refl _) hne
      have ht := List.find?_eq_none.mp hnone t (by simp)
      rw [Expr.range_of_stands hown] at ht
      simp only [decide_eq_true_eq] at ht
      exact ht hle
    rw [hrest, List.append_nil]
    exact hown

/-- A tree that is read from a text is written with tokens of the text. -/
theorem ReadFrom.standsIn {text : String} {root : Node} (h : ReadFrom text root) :
    ∃ ts, Token.scan text.toList = .ok ts ∧ root.StandsIn ts := by
  cases h with
  | expr h =>
    rcases Expr.parse_stands h with ⟨ts, hscan, hstands⟩
    exact ⟨ts, hscan, ts, List.infix_rfl, hstands⟩
  | body h hv =>
    rcases Module.values_inTurn h with ⟨ts, hscan, hvalues⟩
    exact ⟨ts, hscan, (hvalues.standsIn hv).body⟩
  | param h hv hp =>
    rcases Module.values_inTurn h with ⟨ts, hscan, hvalues⟩
    exact ⟨ts, hscan, (hvalues.standsIn hv).params _ hp⟩

/-- An expression that is read from a text has nested ranges in it. -/
theorem ReadFrom.nested {text : String} {e : Expr} (h : ReadFrom text (.expr e)) :
    e.Nested (SourceText.ofString text).HasPlace := by
  rcases h.standsIn with ⟨ts, hscan, own, hown, hstands⟩
  exact hstands.nested ((Token.tidy_scan hscan).of_isInfix hown)

/-- A module keeps the text it was read from; the bodies of its values follow one another in that
text, and have nested ranges there. -/
theorem Module.parse_bodies {text : String} {m : Module} (h : Module.parse text = .ok m) :
    m.source = SourceText.ofString text ∧
      ∃ stop, Between Expr.range (Expr.Nested (SourceText.ofString text).HasPlace) Location.origin
        (m.values.map ValueDecl.body) stop := by
  rcases Module.values_inTurn h with ⟨ts, hscan, hvalues⟩
  refine ⟨?_, hvalues.between (Token.tidy_scan hscan) (Token.ahead_scan hscan).inOrder.1⟩
  simp only [Module.parse, bind_ok_iff] at h
  rcases h with ⟨_, -, ⟨⟨_, _⟩, _⟩, -, ⟨_, _⟩, -, _, -, h⟩
  cases h
  rfl

theorem Module.parse_nested {text : String} {m : Module} (h : Module.parse text = .ok m) :
    m.source = SourceText.ofString text ∧
      ∀ v ∈ m.values, v.body.Nested (SourceText.ofString text).HasPlace :=
  ⟨(Module.parse_bodies h).1, fun _ hv => (ReadFrom.body h hv).nested⟩

end Terse
