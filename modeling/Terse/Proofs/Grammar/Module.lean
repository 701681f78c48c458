import Terse.Grammar.Module
import Terse.Proofs.Grammar.Reading

/-!
# Headers, imports and types

The readers of headers, imports and types only use up tokens: what they leave is a part of what
they were given.
-/

namespace Terse.Grammar

open Token (Kind)

variable {α : Type}

/-! ## Headers and imports -/

/-- Reading the name of a module uses up one token. -/
theorem leaves_moduleName : Leaves moduleName := by
  intro ts name rest h
  unfold moduleName at h
  split at h
  · cases h
    exact List.suffix_cons _ _
  · exact absurd h refuse_ne_ok

/-- Reading what is exposed by one entry only uses up tokens. -/
theorem leaves_exposedItem : Leaves exposedItem := by
  intro ts item rest h
  unfold exposedItem at h
  split at h
  · cases h
    exact List.suffix_cons _ _
  · simp only [bind_ok_iff] at h
    rcases h with ⟨⟨r, ts'⟩, hclose, h⟩
    cases h
    exact suffix_of_cons (suffix_of_cons (suffix_of_cons (leaves_expect _ _ hclose)))
  · cases h
    exact List.suffix_cons _ _
  · simp only [bind_ok_iff] at h
    rcases h with ⟨⟨r, ts'⟩, hclose, h⟩
    cases h
    exact suffix_of_cons (suffix_of_cons (leaves_expect _ _ hclose))
  · exact absurd h refuse_ne_ok
  · exact absurd h refuse_ne_ok

/-- Reading an exposing list only uses up tokens. -/
theorem leaves_exposing : Leaves exposing := by
  intro ts exposed rest h
  simp only [exposing, bind_ok_iff] at h
  rcases h with ⟨⟨r, ts'⟩, hopen, h⟩
  have hleft := leaves_expect _ _ hopen
  dsimp only at h
  split at h
  · simp only [bind_ok_iff] at h
    rcases h with ⟨⟨r', ts''⟩, hclose, h⟩
    cases h
    exact (suffix_of_cons (leaves_expect _ _ hclose)).trans hleft
  · simp only [bind_ok_iff] at h
    rcases h with ⟨⟨items, ts''⟩, hitems, ⟨r', ts⟩, hclose, h⟩
    cases h
    exact (leaves_expect _ _ hclose).trans
      ((leaves_commaSeparated leaves_exposedItem _ hitems).trans hleft)

/-- What may be left out uses up tokens or none. -/
theorem leaves_optional {read : List Token → Reading (α × List Token)} (hread : Leaves read)
    (keyword : Keyword) : Leaves (optional keyword read) := by
  intro ts value rest h
  unfold optional at h
  split at h
  · simp only [bind_ok_iff] at h
    rcases h with ⟨⟨a, ts'⟩, ha, h⟩
    cases h
    exact (hread ha).trans (List.tail_suffix ts)
  · cases h
    exact List.suffix_rfl

/-- Reading one import only uses up tokens. -/
theorem leaves_importDecl : Leaves importDecl := by
  intro ts i rest h
  simp only [importDecl, bind_ok_iff] at h
  obtain ⟨⟨r, ts1⟩, hword, ⟨path, ts2⟩, hpath, ⟨shortName, ts3⟩, hshort, ⟨exposed, ts4⟩, hexposed,
    h⟩ := h
  cases h
  exact (leaves_optional leaves_exposing _ hexposed).trans
    ((leaves_optional leaves_moduleName _ hshort).trans
      ((leaves_moduleName hpath).trans (leaves_expect _ _ hword)))

theorem leaves_imports (fuel : Nat) : Leaves (imports fuel) := by
  induction fuel with
  | zero =>
    intro ts is rest h
    exact absurd h refuse_ne_ok
  | succ fuel ih =>
    intro ts is rest h
    unfold imports at h
    split at h
    · simp only [bind_ok_iff] at h
      rcases h with ⟨⟨first, ts'⟩, hfirst, ⟨others, ts''⟩, hothers, h⟩
      cases h
      exact (ih hothers).trans (leaves_importDecl hfirst)
    · cases h
      exact List.suffix_rfl

theorem leaves_header : Leaves header := by
  intro ts a rest h
  unfold header at h
  dsimp only at h
  -- the word for ports may stand before the header
  generalize hport : (if nextIs (.keyword .portWord) ts then ts.tail else ts) = ts0 at h
  have hleft : ts0 <:+ ts := by
    subst hport
    split
    · exact List.tail_suffix ts
    · exact List.suffix_rfl
  split at h
  · simp only [bind_ok_iff] at h
    rcases h with ⟨⟨name, ts1⟩, hname, ⟨r, ts2⟩, hword, ⟨exposed, ts3⟩, hexposed, h⟩
    cases h
    exact (leaves_exposing hexposed).trans ((leaves_expect _ _ hword).trans
      ((leaves_moduleName hname).trans ((List.tail_suffix _).trans hleft)))
  · cases h
    exact hleft

/-! ## Types -/

/-- A declaration that is not read is passed over up to the next one. -/
theorem skipDeclaration_suffix (ts : List Token) : skipDeclaration ts <:+ ts :=
  (List.dropWhile_suffix _).trans (List.tail_suffix ts)

/-- The arguments of a constructor are counted up to where they end. -/
theorem constructorArgs_suffix (depth arity : Nat) (range : Range) (ts : List Token) :
    (constructorArgs depth arity range ts).2.2 <:+ ts := by
  induction ts generalizing depth arity range with
  | nil => exact List.suffix_rfl
  | cons t ts ih =>
    unfold constructorArgs
    split
    · exact List.suffix_rfl
    · dsimp only
      split
      · split
        · exact List.suffix_rfl
        · exact suffix_of_cons (ih _ _ _)
      all_goals exact suffix_of_cons (ih _ _ _)

theorem leaves_constructors (fuel : Nat) : Leaves (constructors fuel) := by
  induction fuel with
  | zero =>
    intro ts cs rest h
    exact absurd h refuse_ne_ok
  | succ fuel ih =>
    intro ts cs rest h
    unfold constructors at h
    split at h
    · rename_i name start _ ts'
      -- the arguments are skipped token by token, so what is left is a suffix
      have hargs := constructorArgs_suffix 0 0 start ts'
      dsimp only at h
      split at h
      · simp only [bind_ok_iff] at h
        rcases h with ⟨⟨others, ts''⟩, hothers, h⟩
        cases h
        exact (ih hothers).trans ((List.tail_suffix _).trans (suffix_of_cons hargs))
      · cases h
        exact suffix_of_cons hargs
    · exact absurd h refuse_ne_ok

/-- Reading the declaration of a type only uses up tokens. -/
theorem leaves_customType : Leaves customType := by
  intro ts t rest h
  unfold customType at h
  split at h
  · simp only [bind_ok_iff] at h
    rcases h with ⟨⟨r, ts1⟩, hequals, ⟨variants, ts2⟩, hvariants, h⟩
    cases h
    exact suffix_of_cons ((leaves_constructors _ hvariants).trans
      ((leaves_expect _ _ hequals).trans (List.dropWhile_suffix _)))
  · exact absurd h refuse_ne_ok

end Terse.Grammar
