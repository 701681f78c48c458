import Terse.Proofs.Lint.Node

/-!
# What exhaustive patterns match

A value has a type, and a pattern that fits the type matches some of its values. Patterns that are
taken to match every value have a branch for every constructor; they do match every value when
nothing inside the arguments names another constructor. When something does, the arguments are
patterns of their own, and nobody has asked whether they match every argument.
-/

namespace Terse

open Rule

/-! ## Values and types -/

/-- A value, as far as patterns look into it: a unit, a tuple, a constructor of a custom type with
its arguments, or something else. -/
inductive Value (Base : Type) where
  | unit
  | tuple (items : List (Value Base))
  | built (owner : TypeName) (name : String) (args : List (Value Base))
  | base (value : Base)

/-- What the values of a type look like. -/
inductive Shape (Ty : Type) where
  | unit
  | tuple (items : List Ty)
  /-- A custom type, with the types of the arguments of each constructor. -/
  | custom (owner : TypeName) (args : String → List Ty)
  | base

/-- The types of a program. How literals, lists and records select among the other values is left
open. -/
structure Typing (Ty Base : Type) where
  shape : Ty → Shape Ty
  selects : Pattern → Base → Prop

section

variable {Ty Base : Type} (ctx : Context) (T : Typing Ty Base)

/-- The value belongs to the type. A value of a custom type is one of the constructors that are
listed for the type, applied to values. -/
inductive HasType : Value Base → Ty → Prop where
  | unit {t : Ty} (h : T.shape t = .unit) : HasType .unit t
  | tuple {t : Ty} {types : List Ty} {items : List (Value Base)} (h : T.shape t = .tuple types)
      (hitems : List.Forall₂ HasType items types) : HasType (.tuple items) t
  | built {t : Ty} {owner : TypeName} {types : String → List Ty} {all : List String}
      {name : String} {args : List (Value Base)} (h : T.shape t = .custom owner types)
      (hall : ctx.module.knowledge.constructorsOf owner = some all) (hname : name ∈ all)
      (hargs : List.Forall₂ HasType args (types name)) : HasType (.built owner name args) t
  | base {t : Ty} {value : Base} (h : T.shape t = .base) : HasType (.base value) t

namespace Pattern

mutual

/-- The pattern matches the value. -/
def Matches : Pattern → Value Base → Prop
  | wild _, _ | var _ _, _ => True
  | unit _, .unit => True
  | tuple _ items, .tuple values => MatchesAll items values
  | ctor _ name args, .built owner built values =>
    constructorType? ctx name = some owner ∧ name.name = built ∧ MatchesAll args values
  | named _ inner _, v => inner.Matches v
  | paren _ inner, v => inner.Matches v
  | p, .base value => T.selects p value
  | _, _ => False

/-- The patterns match the values one by one. -/
def MatchesAll : List Pattern → List (Value Base) → Prop
  | [], [] => True
  | p :: ps, v :: vs => p.Matches v ∧ MatchesAll ps vs
  | _, _ => False

end

mutual

/-- The pattern is one for values of the type. -/
def Fits : Pattern → Ty → Prop
  | wild _, _ | var _ _, _ => True
  | unit _, t => T.shape t = .unit
  | tuple _ items, t => ∃ types, T.shape t = .tuple types ∧ FitsAll items types
  | ctor _ name args, t => ∃ owner types, T.shape t = .custom owner types ∧
      constructorType? ctx name = some owner ∧ FitsAll args (types name.name)
  | named _ inner _, t => inner.Fits t
  | paren _ inner, t => inner.Fits t
  | _, t => T.shape t = .base

/-- The patterns are ones for values of the types. -/
def FitsAll : List Pattern → List Ty → Prop
  | [], [] => True
  | p :: ps, t :: ts => p.Fits t ∧ FitsAll ps ts
  | _, _ => False

end

/-- The pattern matches the value apart from what stands inside the arguments of its outer
constructor. -/
def MatchesOutside (p : Pattern) (v : Value Base) : Prop :=
  match p.stripParens, v with
  | ctor _ name _, .built owner built _ => constructorType? ctx name = some owner ∧ name.name = built
  | q, v => q.Matches ctx T v

end Pattern

end

/-! ## Patterns that match everything -/

namespace Pattern

mutual

/-- A pattern that looks into nothing matches every value if it names no constructor. -/
theorem isCatchAll_eq (p : Pattern) :
    p.isCatchAll = (p.ignoresValue && p.constructors.isEmpty) := by
  match p with
  | wild _ | unit _ | var _ _ | literal _ _ | list _ _ | cons _ _ _ | record _ _ | named _ _ _ =>
    simp [isCatchAll, ignoresValue, constructors]
  | ctor _ name args => simp [isCatchAll, constructors]
  | tuple _ items =>
    rw [isCatchAll, ignoresValue, constructors]
    exact allCatchAll_eq items
  | paren _ inner =>
    rw [isCatchAll, ignoresValue, constructors]
    exact isCatchAll_eq inner

theorem allCatchAll_eq (ps : List Pattern) :
    allCatchAll ps = (allIgnoreValue ps && (constructorsAll ps).isEmpty) := by
  match ps with
  | [] => rfl
  | p :: ps =>
    rw [allCatchAll, allIgnoreValue, constructorsAll, isCatchAll_eq p, allCatchAll_eq ps]
    cases p.constructors <;> cases p.ignoresValue <;> simp

end

variable {Ty Base : Type} {ctx : Context} {T : Typing Ty Base}

/-- The relation says which values belong to a type, as its shape has it where the type has one
value or is made of others. What the values of other types are is left open. -/
structure FollowsShapes (T : Typing Ty Base) (has : Value Base → Ty → Prop) : Prop where
  unit : ∀ {v t}, T.shape t = .unit → has v t → v = .unit
  tuple : ∀ {v t types}, T.shape t = .tuple types → has v t →
    ∃ items, v = .tuple items ∧ List.Forall₂ has items types

theorem hasType_followsShapes : FollowsShapes T (HasType ctx T) where
  unit hshape hv := by cases hv <;> simp_all
  tuple hshape hv := by
    cases hv with
    | tuple hshape' hitems =>
      rw [hshape] at hshape'
      cases hshape'
      exact ⟨_, rfl, hitems⟩
    | unit hshape' | built hshape' | base hshape' => simp [hshape] at hshape'

variable {has : Value Base → Ty → Prop}

mutual

/-- A pattern that catches everything matches whatever belongs to its type. -/
theorem matches_of_followsShapes (hhas : FollowsShapes T has) {p : Pattern} {t : Ty}
    {v : Value Base} (h : p.isCatchAll = true) (hfits : p.Fits ctx T t) (hv : has v t) :
    p.Matches ctx T v := by
  match p with
  | wild _ => simp [Matches]
  | unit _ =>
    rw [Fits] at hfits
    rw [hhas.unit hfits hv, Matches]
    trivial
  | tuple _ items =>
    rw [Fits] at hfits
    rcases hfits with ⟨types, hshape, hfits⟩
    rcases hhas.tuple hshape hv with ⟨values, rfl, hvalues⟩
    rw [isCatchAll] at h
    rw [Matches]
    exact matchesAll_of_followsShapes hhas h hfits hvalues
  | paren _ inner =>
    rw [Fits] at hfits
    rw [isCatchAll] at h
    rw [Matches]
    exact matches_of_followsShapes hhas h hfits hv
  | var _ _ | literal _ _ | ctor _ _ _ | list _ _ | cons _ _ _ | record _ _ | named _ _ _ =>
    simp [isCatchAll] at h

theorem matchesAll_of_followsShapes (hhas : FollowsShapes T has) {ps : List Pattern}
    {ts : List Ty} {vs : List (Value Base)} (h : allCatchAll ps = true)
    (hfits : FitsAll ctx T ps ts) (hvs : List.Forall₂ has vs ts) : MatchesAll ctx T ps vs := by
  match ps, hvs with
  | [], .nil => simp [MatchesAll]
  | p :: ps, .cons hv hvs =>
    rw [allCatchAll, Bool.and_eq_true] at h
    rw [FitsAll] at hfits
    rw [MatchesAll]
    exact ⟨matches_of_followsShapes hhas h.1 hfits.1 hv,
      matchesAll_of_followsShapes hhas h.2 hfits.2 hvs⟩
  | [], .cons _ _ | _ :: _, .nil => simp [FitsAll] at hfits

end

theorem matches_of_isCatchAll {p : Pattern} {t : Ty} {v : Value Base} (h : p.isCatchAll = true)
    (hfits : p.Fits ctx T t) (hv : HasType ctx T v t) : p.Matches ctx T v :=
  matches_of_followsShapes hasType_followsShapes h hfits hv

theorem matchesAll_of_allCatchAll {ps : List Pattern} {ts : List Ty} {vs : List (Value Base)}
    (h : allCatchAll ps = true) (hfits : FitsAll ctx T ps ts)
    (hvs : List.Forall₂ (HasType ctx T) vs ts) : MatchesAll ctx T ps vs :=
  matchesAll_of_followsShapes hasType_followsShapes h hfits hvs

theorem matches_stripParens (p : Pattern) (v : Value Base) :
    p.stripParens.Matches ctx T v ↔ p.Matches ctx T v :=
  Iff.of_eq (apply_stripParens (f := (·.Matches ctx T v)) (fun _ _ => by rw [Matches]) p)

theorem fits_stripParens (p : Pattern) (t : Ty) :
    p.stripParens.Fits ctx T t ↔ p.Fits ctx T t :=
  Iff.of_eq (apply_stripParens (f := (·.Fits ctx T t)) (fun _ _ => by rw [Fits]) p)

theorem constructors_stripParens (p : Pattern) : p.stripParens.constructors = p.constructors :=
  apply_stripParens (fun _ _ => by rw [constructors]) p

/-- Patterns match more outside than they do all in all. -/
theorem Matches.outside {p : Pattern} {v : Value Base} (h : p.Matches ctx T v) :
    p.MatchesOutside ctx T v := by
  rw [← matches_stripParens] at h
  unfold MatchesOutside
  split
  · rename_i hp
    rw [hp, Matches] at h
    exact ⟨h.1, h.2.1⟩
  · exact h

/-- In parentheses or not, the pattern is this constructor of the type with these arguments, and
it looks into none of them. -/
structure Builds (ctx : Context) (owner : TypeName) (p : Pattern) (name : String)
    (args : List Pattern) : Prop where
  intro ::
  exists_eq : ∃ r q, p.stripParens = .ctor r q args ∧ q.name = name ∧
    constructorType? ctx q = some owner
  ignores : allIgnoreValue args = true

end Pattern

namespace Rule

variable {ctx : Context}

theorem ignoringConstructor?_eq_some {p : Pattern} {name : String} {owner : TypeName}
    (h : ignoringConstructor? ctx p = some (name, owner)) :
    ∃ args, p.Builds ctx owner name args := by
  unfold ignoringConstructor? at h
  split at h
  · rename_i r q args hp
    split at h
    · rename_i hargs
      rcases Option.map_eq_some_iff.mp h with ⟨t, ht, heq⟩
      cases heq
      exact ⟨args, ⟨r, q, hp, rfl, ht⟩, hargs⟩
    · cases h
  · cases h

/-- The constructors go with the patterns one by one. -/
theorem map_ignoringConstructor? {ps : List Pattern} {named : List (String × TypeName)}
    (h : ps.mapM (ignoringConstructor? ctx) = some named) :
    ps.map (ignoringConstructor? ctx) = named.map some := by
  induction ps generalizing named with
  | nil =>
    rw [List.mapM_nil] at h
    cases h
    rfl
  | cons p ps ih =>
    simp only [List.mapM_cons, Option.bind_eq_bind, Option.bind_eq_some_iff, Option.pure_def,
      Option.some.injEq] at h
    rcases h with ⟨x, hx, others, hothers, rfl⟩
    rw [List.map_cons, List.map_cons, hx, ih hothers]

/-- Patterns that cover a type all build it, and each of its constructors is built by one. -/
theorem exists_of_coversType {ps : List Pattern} (h : coversType ctx ps = true) :
    ∃ owner all, ctx.module.knowledge.constructorsOf owner = some all ∧ ps ≠ [] ∧
      (∀ p ∈ ps, ∃ name args, p.Builds ctx owner name args) ∧
      ∀ name ∈ all, ∃ p ∈ ps, ∃ args, p.Builds ctx owner name args := by
  unfold coversType at h
  split at h
  case h_2 => cases h
  rename_i name owner others hnamed
  have hmap := map_ignoringConstructor? hnamed
  rw [Bool.and_eq_true, List.all_eq_true] at h
  rcases h with ⟨hothers, h⟩
  split at h
  case h_2 => cases h
  rename_i all hall
  rw [Bool.and_eq_true, List.all_eq_true] at h
  -- the first pattern settles the type, and the others are tested against it
  have howner : ∀ x ∈ (name, owner) :: others, x.2 = owner := by
    intro x hx
    rcases List.mem_cons.mp hx with rfl | hx
    · rfl
    · exact eq_of_beq (hothers x hx)
  refine ⟨owner, all, hall, ?_, ?_, ?_⟩
  · rintro rfl
    cases hmap
  · intro p hp
    have hmem : ignoringConstructor? ctx p ∈ ((name, owner) :: others).map some := by
      rw [← hmap]
      exact List.mem_map_of_mem hp
    rcases List.mem_map.mp hmem with ⟨⟨c, t⟩, hx, hp'⟩
    obtain rfl : t = owner := howner _ hx
    exact ⟨c, ignoringConstructor?_eq_some hp'.symm⟩
  · intro c hc
    have hseen : ∃ t, (c, t) ∈ (name, owner) :: others := by
      have hmem := h.2 c hc
      rw [List.contains_iff_mem, List.mem_eraseDups] at hmem
      rcases List.mem_cons.mp hmem with rfl | hmem
      · exact ⟨owner, List.mem_cons_self⟩
      · rcases List.mem_map.mp hmem with ⟨⟨c, t⟩, hx, rfl⟩
        exact ⟨t, List.mem_cons_of_mem _ hx⟩
    rcases hseen with ⟨t, hx⟩
    obtain rfl : t = owner := howner _ hx
    have hmem : some (c, t) ∈ ps.map (ignoringConstructor? ctx) := by
      rw [hmap]
      exact List.mem_map_of_mem hx
    rcases List.mem_map.mp hmem with ⟨p, hp, hp'⟩
    exact ⟨p, hp, ignoringConstructor?_eq_some hp'⟩

end Rule

/-! ## Exhaustive patterns -/

namespace Pattern.Builds

variable {Ty Base : Type} {ctx : Context} {T : Typing Ty Base} {owner : TypeName} {p : Pattern}
  {name : String} {args : List Pattern} (h : p.Builds ctx owner name args)
include h

theorem matches_iff {built : String} {values : List (Value Base)} :
    p.Matches ctx T (.built owner built values) ↔ name = built ∧ MatchesAll ctx T args values := by
  rcases h.exists_eq with ⟨r, q, hp, rfl, howner⟩
  rw [← matches_stripParens, hp, Matches, howner]
  simp

theorem matchesOutside {values : List (Value Base)} :
    p.MatchesOutside ctx T (.built owner name values) := by
  rcases h.exists_eq with ⟨r, q, hp, rfl, howner⟩
  unfold MatchesOutside
  rw [hp]
  exact ⟨howner, rfl⟩

theorem fits {t : Ty} (hfits : p.Fits ctx T t) :
    ∃ types, T.shape t = .custom owner types ∧ FitsAll ctx T args (types name) := by
  rcases h.exists_eq with ⟨r, q, hp, rfl, howner⟩
  rw [← fits_stripParens, hp, Fits, howner] at hfits
  rcases hfits with ⟨owner', types, hshape, howner', hargs⟩
  obtain rfl : owner = owner' := by simpa using howner'
  exact ⟨types, hshape, hargs⟩

/-- A pattern that names nothing but its own constructor matches it with whatever arguments. -/
theorem allCatchAll (hflat : p.constructors.length ≤ 1) : Pattern.allCatchAll args = true := by
  rcases h.exists_eq with ⟨r, q, hp, rfl, howner⟩
  rw [← constructors_stripParens, hp, constructors, List.length_cons] at hflat
  have hnone : constructorsAll args = [] := List.eq_nil_of_length_eq_zero (by omega)
  rw [allCatchAll_eq, h.ignores, hnone]
  rfl

end Pattern.Builds

section

variable {Ty Base : Type} {ctx : Context} {T : Typing Ty Base}

/-- Values of a custom type are built by constructors of the type. -/
theorem HasType.exists_built {v : Value Base} {t : Ty} (hv : HasType ctx T v t) {owner : TypeName}
    {types : String → List Ty} (hshape : T.shape t = .custom owner types) {all : List String}
    (hall : ctx.module.knowledge.constructorsOf owner = some all) :
    ∃ name ∈ all, ∃ args, v = .built owner name args ∧
      List.Forall₂ (HasType ctx T) args (types name) := by
  cases hv with
  | @built _ _ _ _ name args hshape' hall' hname hargs =>
    rw [hshape] at hshape'
    cases hshape'
    rw [hall] at hall'
    cases hall'
    exact ⟨name, hname, args, rfl, hargs⟩
  | unit hshape' | tuple hshape' | base hshape' => simp [hshape] at hshape'

/-- What patterns do that are taken to match every value, and are patterns for the type of the
scrutinee. Each value is matched by one of them, apart from what stands inside the arguments of a
constructor. They do match every value when no pattern names a constructor inside another one. In
general they do so exactly when one of them matches everything, or when for each constructor its
branches match all its arguments. -/
theorem exhaustive_outside {patterns : List Pattern} {t : Ty}
    (h : isExhaustive ctx patterns = true) (hfits : ∀ p ∈ patterns, p.Fits ctx T t) :
    (∀ v, HasType ctx T v t → ∃ p ∈ patterns, p.MatchesOutside ctx T v) ∧
    ((∀ p ∈ patterns, p.constructors.length ≤ 1) →
      ∀ v, HasType ctx T v t → ∃ p ∈ patterns, p.Matches ctx T v) ∧
    ((∀ v, HasType ctx T v t → ∃ p ∈ patterns, p.Matches ctx T v) ↔
      (∃ p ∈ patterns, p.isCatchAll = true) ∨
      ∃ owner types all, T.shape t = .custom owner types ∧
        ctx.module.knowledge.constructorsOf owner = some all ∧
        ∀ name ∈ all, ∀ values, List.Forall₂ (HasType ctx T) values (types name) →
          ∃ p ∈ patterns, ∃ args, p.Builds ctx owner name args ∧
            Pattern.MatchesAll ctx T args values) := by
  rw [isExhaustive, Bool.or_eq_true, List.any_eq_true] at h
  by_cases hcatch : ∃ p ∈ patterns, p.isCatchAll = true
  · -- one of them matches every value
    rcases hcatch with ⟨p, hp, hcatch⟩
    have hmatches : ∀ v, HasType ctx T v t → ∃ p ∈ patterns, p.Matches ctx T v := by
      intro v hv
      exact ⟨p, hp, Pattern.matches_of_isCatchAll hcatch (hfits p hp) hv⟩
    refine ⟨?_, fun _ => hmatches, fun _ => .inl ⟨p, hp, hcatch⟩, fun _ => hmatches⟩
    intro v hv
    rcases hmatches v hv with ⟨p, hp, hv⟩
    exact ⟨p, hp, hv.outside⟩
  · -- or they build all of one type
    rcases exists_of_coversType (h.resolve_left hcatch) with
      ⟨owner, all, hall, hne, hbuilds, hcovers⟩
    rcases List.exists_mem_of_ne_nil patterns hne with ⟨first, hfirst⟩
    rcases hbuilds first hfirst with ⟨_, _, hfirst'⟩
    rcases hfirst'.fits (hfits first hfirst) with ⟨types, hshape, -⟩
    refine ⟨?outside, ?flat, ?exact⟩
    case outside =>
      intro v hv
      rcases hv.exists_built hshape hall with ⟨name, hname, values, rfl, -⟩
      rcases hcovers name hname with ⟨p, hp, args, hp'⟩
      exact ⟨p, hp, hp'.matchesOutside⟩
    case flat =>
      intro hflat v hv
      rcases hv.exists_built hshape hall with ⟨name, hname, values, rfl, hvalues⟩
      rcases hcovers name hname with ⟨p, hp, args, hp'⟩
      rcases hp'.fits (hfits p hp) with ⟨types', hshape', hargs⟩
      obtain rfl : types = types' := by simpa [hshape] using hshape'
      have hall := hp'.allCatchAll (hflat p hp)
      exact ⟨p, hp, hp'.matches_iff.mpr
        ⟨rfl, Pattern.matchesAll_of_allCatchAll hall hargs hvalues⟩⟩
    case exact =>
      constructor
      · intro hmatches
        refine .inr ⟨owner, types, all, hshape, hall, ?_⟩
        intro name hname values hvalues
        rcases hmatches _ (.built hshape hall hname hvalues) with ⟨p, hp, hv⟩
        rcases hbuilds p hp with ⟨name', args, hp'⟩
        rcases hp'.matches_iff.mp hv with ⟨rfl, hargs⟩
        exact ⟨p, hp, args, hp', hargs⟩
      · rintro (hcatch' | ⟨owner', types', all', hshape', hall', hrows⟩)
        · exact absurd hcatch' hcatch
        · intro v hv
          rcases hv.exists_built hshape' hall' with ⟨name, hname, values, rfl, hvalues⟩
          rcases hrows name hname values hvalues with ⟨p, hp, args, hp', hargs⟩
          exact ⟨p, hp, hp'.matches_iff.mpr ⟨rfl, hargs⟩⟩

end

/-! ## Cases of Maybe -/

/-- The unit type, and for each type the Maybe of it. -/
def maybeTyping : Typing Nat Empty where
  shape
    | 0 => .unit
    | n + 1 => .custom ⟨Core.maybe, "Maybe"⟩ fun name => if name = "Just" then [n] else []
  selects _ _ := False

/-- The node is a case of two branches, for Just with this argument and for Nothing, that counts as
exhaustive and is reported for its equal branches. -/
def isMaybeCase (argument : Context → Pattern → Bool) (ctx : Context) (e : Expr) : Bool :=
  match e with
  | .case whole scrutinee branches =>
    match branches.map Branch.pattern with
    | [.ctor _ just [arg], .ctor _ nothing []] =>
      constructorType? ctx just = some ⟨Core.maybe, "Maybe"⟩ && just.name = "Just" &&
        constructorType? ctx nothing = some ⟨Core.maybe, "Maybe"⟩ && nothing.name = "Nothing" &&
        argument ctx arg && isExhaustive ctx (branches.map Branch.pattern) &&
        (checkSameBodies ctx whole scrutinee branches).isSome &&
        ctx.module.knowledge.constructorsOf ⟨Core.maybe, "Maybe"⟩ = some ["Just", "Nothing"]
    | _ => false
  | _ => false

theorem exists_of_isMaybeCase {argument : Context → Pattern → Bool} {ctx : Context} {e : Expr}
    (h : isMaybeCase argument ctx e = true) :
    ∃ whole scrutinee branches r just arg r' nothing, e = .case whole scrutinee branches ∧
      branches.map Branch.pattern = [.ctor r just [arg], .ctor r' nothing []] ∧
      constructorType? ctx just = some ⟨Core.maybe, "Maybe"⟩ ∧ just.name = "Just" ∧
      constructorType? ctx nothing = some ⟨Core.maybe, "Maybe"⟩ ∧ nothing.name = "Nothing" ∧
      argument ctx arg = true ∧ isExhaustive ctx (branches.map Branch.pattern) = true ∧
      (checkSameBodies ctx whole scrutinee branches).isSome = true ∧
      ctx.module.knowledge.constructorsOf ⟨Core.maybe, "Maybe"⟩ = some ["Just", "Nothing"] := by
  unfold isMaybeCase at h
  split at h
  · rename_i whole scrutinee branches
    split at h
    · rename_i r just arg r' nothing hpatterns
      simp only [Bool.and_eq_true, decide_eq_true_eq, and_assoc] at h
      exact ⟨whole, scrutinee, branches, r, just, arg, r', nothing, rfl, hpatterns, h⟩
    · contradiction
  · contradiction

/-- The pattern is a wildcard. -/
def isWildcard : Pattern → Bool
  | .wild _ => true
  | _ => false

/-- The pattern is Just of a wildcard, in parentheses. -/
def isJustOfWildcard (ctx : Context) : Pattern → Bool
  | .paren _ (.ctor _ inner [.wild _]) =>
    constructorType? ctx inner = some ⟨Core.maybe, "Maybe"⟩ && inner.name = "Just"
  | _ => false

/-- Just of a wildcard and Nothing match all values of Maybe. -/
theorem exhaustive_outside_flat_maybe :
    ∃ m v whole scrutinee branches ctx,
      Module.parse "x m =\n    case m of\n        Just _ -> 1\n        Nothing -> 1\n" = .ok m ∧
      v ∈ m.values ∧ .case whole scrutinee branches ∈ v.body.nodes ∧
      isExhaustive ctx (branches.map Branch.pattern) = true ∧
      ∀ value, HasType ctx maybeTyping value 1 →
        ∃ p ∈ branches.map Branch.pattern, p.Matches ctx maybeTyping value := by
  have hcase : someNode "x m =\n    case m of\n        Just _ -> 1\n        Nothing -> 1\n"
      (isMaybeCase fun _ => isWildcard) = true := by
    decide +kernel
  rcases exists_of_someNode hcase with ⟨m, v, e, ctx, hm, hv, he, htest⟩
  rcases exists_of_isMaybeCase htest with ⟨whole, scrutinee, branches, r, just, arg, r', nothing,
    rfl, hpatterns, hjust, hname, hnothing, hname', harg, hexhaustive, -, -⟩
  unfold isWildcard at harg
  split at harg
  case h_2 => cases harg
  have hfits : ∀ p ∈ branches.map Branch.pattern, p.Fits ctx maybeTyping 1 := by
    simp [hpatterns, Pattern.Fits, Pattern.FitsAll, maybeTyping, hjust, hnothing, hname, hname']
  have hflat : ∀ p ∈ branches.map Branch.pattern, p.constructors.length ≤ 1 := by
    simp [hpatterns, Pattern.constructors, Pattern.constructorsAll]
  exact ⟨m, v, whole, scrutinee, branches, ctx, hm, hv, he, hexhaustive,
    (exhaustive_outside hexhaustive hfits).2.1 hflat⟩

/-- Just of Just of a wildcard and Nothing count as exhaustive, and the case is to be removed; but
they are patterns for a Maybe of a Maybe, and do not match Just of Nothing. -/
theorem nested_pattern_leaves_value :
    ∃ m v whole scrutinee branches ctx value,
      Module.parse "x m =\n    case m of\n        Just (Just _) -> 1\n        Nothing -> 1\n" =
        .ok m ∧
      v ∈ m.values ∧ .case whole scrutinee branches ∈ v.body.nodes ∧
      isExhaustive ctx (branches.map Branch.pattern) = true ∧
      (checkSameBodies ctx whole scrutinee branches).isSome = true ∧
      (∀ p ∈ branches.map Branch.pattern, p.Fits ctx maybeTyping 2) ∧
      HasType ctx maybeTyping value 2 ∧
      ∀ p ∈ branches.map Branch.pattern, ¬ p.Matches ctx maybeTyping value := by
  have hcase : someNode
      "x m =\n    case m of\n        Just (Just _) -> 1\n        Nothing -> 1\n"
      (isMaybeCase isJustOfWildcard) = true := by
    decide +kernel
  rcases exists_of_someNode hcase with ⟨m, v, e, ctx, hm, hv, he, htest⟩
  rcases exists_of_isMaybeCase htest with ⟨whole, scrutinee, branches, r, just, arg, r', nothing,
    rfl, hpatterns, hjust, hname, hnothing, hname', harg, hexhaustive, hreported, hall⟩
  unfold isJustOfWildcard at harg
  split at harg
  case h_2 => cases harg
  rw [Bool.and_eq_true, decide_eq_true_eq, decide_eq_true_eq] at harg
  rcases harg with ⟨hinner, hinnerName⟩
  refine ⟨m, v, whole, scrutinee, branches, ctx,
    .built ⟨Core.maybe, "Maybe"⟩ "Just" [.built ⟨Core.maybe, "Maybe"⟩ "Nothing" []], hm, hv, he,
    hexhaustive, hreported, ?fits, ?type, ?unmatched⟩
  case fits =>
    simp [hpatterns, Pattern.Fits, Pattern.FitsAll, maybeTyping, hjust, hnothing, hname, hname',
      hinner, hinnerName]
  case type =>
    refine .built rfl hall (by simp) (.cons (.built rfl hall (by simp) ?_) .nil)
    simp
  case unmatched =>
    simp [hpatterns, Pattern.Matches, Pattern.MatchesAll, hname, hname', hinnerName]

end Terse
