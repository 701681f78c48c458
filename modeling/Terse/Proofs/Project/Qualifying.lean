import Terse.Proofs.Grammar.Extracting
import Terse.Proofs.Project.Lookup
import Terse.Proofs.Token.Reference
import Terse.View.Context

/-!
# Names that fixes write

A fix names a value of another module without a path, or with the qualifier of an import. Without a
path the name means the value. With a qualifier it means the value of that name in the first of the
imports with the qualifier that expose it, which may be an import of another module.
-/

namespace Terse

open Token (Kind)

/-! ## Qualifiers -/

/-- A path that can be written: at least one segment, and all of them capitalized. -/
def ModuleName.IsProper (path : ModuleName) : Prop :=
  path.segments ≠ [] ∧ ∀ s ∈ path.segments, IsCapital s

namespace Grammar

variable {ts rest : List Token}

theorem moduleName_proper {path : Located ModuleName} (hts : ∀ t ∈ ts, t.kind.IsRegular)
    (h : moduleName ts = .ok (path, rest)) : path.value.IsProper := by
  unfold moduleName at h
  split at h
  · cases h
    exact ⟨by simp, hts _ List.mem_cons_self⟩
  · exact absurd h refuse_ne_ok

/-- The qualifier of an import that is read is made of capital words. -/
theorem importDecl_proper {i : Import} (hts : ∀ t ∈ ts, t.kind.IsRegular)
    (h : importDecl ts = .ok (i, rest)) : i.qualifier.IsProper := by
  simp only [importDecl, bind_ok_iff] at h
  obtain ⟨⟨r, ts1⟩, hword, ⟨path, ts2⟩, hpath, ⟨shortName, ts3⟩, hshort, ⟨exposed, ts4⟩, -, h⟩ := h
  cases h
  have hts1 : ∀ t ∈ ts1, t.kind.IsRegular := fun t ht => hts t ((leaves_expect _ _ hword).subset ht)
  unfold optional at hshort
  split at hshort
  · simp only [bind_ok_iff] at hshort
    rcases hshort with ⟨⟨name, ts3⟩, hname, hshort⟩
    cases hshort
    have hleft := (List.tail_suffix ts2).trans (leaves_moduleName hpath)
    exact moduleName_proper (fun t ht => hts1 t (hleft.subset ht)) hname
  · cases hshort
    exact moduleName_proper hts1 hpath

theorem imports_proper {fuel : Nat} {is : List Import} (hts : ∀ t ∈ ts, t.kind.IsRegular)
    (h : imports fuel ts = .ok (is, rest)) : ∀ i ∈ is, i.qualifier.IsProper := by
  induction fuel generalizing ts is with
  | zero => exact absurd h refuse_ne_ok
  | succ fuel ih =>
    unfold imports at h
    split at h
    · simp only [bind_ok_iff] at h
      rcases h with ⟨⟨first, ts'⟩, hfirst, ⟨others, ts''⟩, hothers, h⟩
      cases h
      have hleft := leaves_importDecl hfirst
      exact List.forall_mem_cons.mpr ⟨importDecl_proper hts hfirst,
        ih (fun t ht => hts t (hleft.subset ht)) hothers⟩
    · cases h
      simp

end Grammar

/-- The imports of a module that is read have qualifiers that can be written. -/
theorem Module.qualifier_proper {text : String} {m : Module} (h : Module.parse text = .ok m)
    {i : Import} (hi : i ∈ m.allImports) : i.qualifier.IsProper := by
  rcases List.mem_append.mp hi with hi | hi
  · have hall : Core.defaultImports.all (fun j => !j.qualifier.segments.isEmpty &&
        j.qualifier.segments.all fun s => !s.toList.isEmpty && s.toList.all Letter.isWordChar &&
          (QualifiedName.bare s).isConstructor) = true := by decide +kernel
    simpa [ModuleName.IsProper, IsCapital, IsWord, and_assoc] using List.all_eq_true.mp hall i hi
  · simp only [Module.parse, bind_ok_iff] at h
    rcases h with ⟨ts, hscan, ⟨⟨name, exposed⟩, ts1⟩, hheader, ⟨imports, ts2⟩, himports, ds, -, h⟩
    cases h
    have htidy := Token.tidy_scan (Grammar.of_tokens hscan)
    have hleft := Grammar.leaves_header hheader
    have hregular := fun t ht => (htidy.sound t (hleft.subset ht)).regular
    exact Grammar.imports_proper hregular himports i hi

/-! ## What stands behind a qualifier -/

/-- The first import of a module, of which the written ones go first. -/
def Module.importOf? (m : Module) (path : ModuleName) : Option Import :=
  (m.imports ++ Core.defaultImports).find? (·.path.value == path)

/-- The module of the first import, of which the default ones go first, that has the qualifier and
exposes the name. -/
def Module.exposer? (m : Module) (k : Knowledge) (qualifier : ModuleName) (name : String) :
    Option ModuleName :=
  (m.allImports.find? fun i => i.qualifier.render == qualifier.render &&
    k.exposes i.path.value name).map (·.path.value)

/-- A module that is imported is found among the imports. -/
theorem Module.exists_importOf? {m : Module} {i : Import} (hi : i ∈ m.allImports) :
    ∃ j, m.importOf? i.path.value = some j ∧ j ∈ m.allImports ∧ j.path.value = i.path.value := by
  have hsome : (m.importOf? i.path.value).isSome := by
    refine List.find?_isSome.mpr ⟨i, ?_, BEq.rfl⟩
    rw [allImports, List.mem_append] at hi
    exact List.mem_append.mpr hi.symm
  rcases Option.isSome_iff_exists.mp hsome with ⟨j, hj⟩
  have hmem := List.mem_append.mp (List.mem_of_find?_eq_some hj)
  exact ⟨j, hj, List.mem_append.mpr hmem.symm, by simpa using List.find?_some hj⟩

/-- A name exposed by an import is found behind its qualifier. -/
theorem Module.exists_exposer? {m : Module} {k : Knowledge} {i : Import} {name : String}
    (hi : i ∈ m.allImports) (hexposes : k.exposes i.path.value name) :
    ∃ path, m.exposer? k i.qualifier name = some path := by
  have hsome : (m.allImports.find? fun j => j.qualifier.render == i.qualifier.render &&
      k.exposes j.path.value name).isSome :=
    List.find?_isSome.mpr ⟨i, hi, by simp [hexposes]⟩
  rcases Option.isSome_iff_exists.mp hsome with ⟨j, hj⟩
  exact ⟨j.path.value, by rw [exposer?, hj, Option.map_some]⟩

namespace AliasTable

variable {p : ModuleName → Bool} {t : AliasTable} {q qualifier : String} {path : ModuleName}

theorem modulesOf_cons (found : List ModuleName) :
    modulesOf ((qualifier, found) :: t) q = if q = qualifier then found else t.modulesOf q := by
  unfold modulesOf
  rw [List.lookup_cons]
  cases h : q == qualifier <;> simp_all

/-- An alias is added behind its own qualifier, and once. -/
theorem modulesOf_add : (t.add qualifier path).modulesOf q =
    if q = qualifier then
      if (t.modulesOf q).contains path then t.modulesOf q else t.modulesOf q ++ [path]
    else t.modulesOf q := by
  induction t with
  | nil => simp [add, modulesOf_cons, show modulesOf [] q = [] from rfl]
  | cons entry t ih =>
    rcases entry with ⟨other, found⟩
    unfold add
    by_cases hother : other = qualifier
    · subst hother
      rw [if_pos rfl, modulesOf_cons, modulesOf_cons]
      split <;> rfl
    · rw [if_neg hother, modulesOf_cons, modulesOf_cons, ih]
      by_cases hq : q = other
      · subst hq
        simp [hother]
      · rw [if_neg hq, if_neg hq]

/-- Of the modules behind a qualifier a new one is the last to be found. -/
theorem find?_modulesOf_add : ((t.add qualifier path).modulesOf q).find? p =
    ((t.modulesOf q).find? p).or (if qualifier == q && p path then some path else none) := by
  rw [modulesOf_add]
  by_cases hq : q = qualifier
  · subst hq
    rw [if_pos rfl, BEq.rfl, Bool.true_and]
    split
    · rename_i hmem
      -- a module that is there already would have been found
      cases hfind : (t.modulesOf q).find? p with
      | some found => rfl
      | none =>
        have hpath := List.find?_eq_none.mp hfind path (by simpa using hmem)
        rw [if_neg hpath, Option.or_none]
    · rw [List.find?_append, List.find?_singleton]
  · have hother : (qualifier == q) = false := by simpa using Ne.symm hq
    rw [if_neg hq, hother, Bool.false_and, if_neg Bool.false_ne_true, Option.or_none]

/-- Behind a qualifier the modules are searched in the order of the imports. -/
theorem find?_modulesOf_foldl {imports : List Import} :
    ((imports.foldl (fun t i => t.add i.qualifier.render i.path.value) t).modulesOf q).find? p =
      ((t.modulesOf q).find? p).or
        ((imports.find? fun i => i.qualifier.render == q && p i.path.value).map
          (·.path.value)) := by
  induction imports generalizing t with
  | nil => simp
  | cons i imports ih =>
    rw [List.foldl_cons, ih, find?_modulesOf_add, Option.or_assoc, List.find?_cons]
    cases i.qualifier.render == q && p i.path.value <;> rfl

/-- The first module behind a qualifier that exposes a name is that of the first such import. -/
theorem find?_modulesOf_ofImports {m : Module} {k : Knowledge} {qualifier : ModuleName}
    {name : String} :
    ((ofImports m.imports).modulesOf qualifier.render).find? (k.exposes · name) =
      m.exposer? k qualifier name := find?_modulesOf_foldl

end AliasTable

namespace Lookup

variable {m : Module} {k : Knowledge} {q : QualifiedName} {name : String}

/-- A name that means the value without a path is written without one. -/
theorem qualify_of_bare {path : ModuleName} {shadowed : List String} (hname : name ∉ shadowed)
    (hbare : (ofModule m k).moduleOfBare name = some path) :
    (ofModule m k).qualify path name shadowed = .bare name := by
  rw [qualify, reference?, if_pos (by simp [hname, hbare])]
  rfl

/-- Any other name of an imported module is written with the qualifier of its first import. -/
theorem qualify_of_not_bare {path : ModuleName} {shadowed : List String} {i : Import}
    (hbare : ¬ (name ∉ shadowed ∧ (ofModule m k).moduleOfBare name = some path))
    (hi : m.importOf? path = some i) :
    (ofModule m k).qualify path name shadowed = ⟨i.qualifier, name⟩ := by
  rw [Module.importOf?] at hi
  rw [qualify, reference?, if_neg (by simpa using hbare)]
  change (((m.imports ++ Core.defaultImports).find? _).map _).getD _ = _
  rw [hi]
  rfl

/-- A bare name means what the module that exposes it declares. -/
theorem resolve_bare : (ofModule m k).resolve (.bare name) =
    ((ofModule m k).moduleOfBare name).map (⟨·, name⟩) := rfl

/-- A qualified name means what the first module with the qualifier exposes. -/
theorem resolve_qualified (hq : q.isQualified) {path : ModuleName}
    (h : m.exposer? k q.path q.name = some path) :
    (ofModule m k).resolve q = some ⟨path, q.name⟩ := by
  rw [resolve, if_pos hq, moduleOfQualified,
    show (ofModule m k).aliases = AliasTable.ofImports m.imports from rfl,
    show (ofModule m k).knowledge = k from rfl, AliasTable.find?_modulesOf_ofImports, h]
  rfl

end Lookup

/-! ## Reading references back -/

/-- The reference that the expression is. -/
def Expr.reference? : Expr → Option QualifiedName
  | .var _ q => some q
  | _ => none

theorem Expr.reference?_eq_some {e : Expr} {q : QualifiedName} (h : e.reference? = some q) :
    ∃ r, e = .var r q := by
  cases e <;> cases h
  exact ⟨_, rfl⟩

namespace QualifiedName

/-- The reference that a text is read to as an expression. -/
def read? (text : String) : Option QualifiedName := (Expr.parse text).toOption.bind Expr.reference?

variable {text name : String} {q : QualifiedName}

/-- A text that is one token of a reference is read as that reference. -/
theorem read?_of_scan {t : Token} (hscan : Token.scan text.toList = .ok [t])
    (ht : t.kind = q.kind) : read? text = some q := by
  have hspelled : (Node.expr (.var t.range q)).SpelledBy [t] :=
    ⟨⟨trivial, by simp⟩, .token ht .nil⟩
  rcases Expr.parse_of_spelledBy hscan hspelled with ⟨e, hparse, he⟩
  rw [read?, hparse]
  cases e <;> simp_all [Expr.unplaced, Expr.reference?, Except.toOption]

theorem exists_of_read? (h : read? text = some q) :
    ∃ t, Token.scan text.toList = .ok [t] ∧ t.kind = q.kind ∧ t.kind.IsRegular := by
  rcases Option.bind_eq_some_iff.mp h with ⟨e, hparse, he⟩
  rcases Expr.reference?_eq_some he with ⟨r, rfl⟩
  rcases Expr.parse_stands (eq_ok_of_toOption hparse) with ⟨ts, hscan, hstands⟩
  rcases spelled_token.mp hstands.2 with ⟨t, rest, rfl, ht, hrest⟩
  obtain rfl := spelled_nil.mp hrest
  exact ⟨t, hscan, ht, (Token.tidy_scan hscan).head.regular⟩

/-- A name that reads as a bare reference is a word. -/
theorem isWord_of_read? (h : read? name = some (bare name)) : IsWord name := by
  rcases exists_of_read? h with ⟨t, -, ht, hregular⟩
  rw [ht, kind] at hregular
  split at hregular
  · exact (hregular name (by simp [bare])).1
  · exact hregular.2.1

/-- Behind a qualifier a name can be read if it starts with a capital or a small letter. -/
theorem read?_render {qualifier : ModuleName} (hqualifier : qualifier.IsProper)
    (hname : IsWord name) :
    read? (render ⟨qualifier, name⟩) =
      if startsWithCase name then some ⟨qualifier, name⟩ else none := by
  rcases qualifier with ⟨segments⟩
  rcases hqualifier with ⟨hne, hsegments⟩
  rcases List.exists_cons_of_ne_nil hne with ⟨s, ss, rfl⟩
  have hrender : render ⟨⟨s :: ss⟩, name⟩ = dotted (s :: ss) ++ "." ++ name := rfl
  rw [hrender]
  split
  · rename_i hcase
    rcases Token.scan_reference hsegments hname hcase with ⟨t, hscan, ht⟩
    exact read?_of_scan hscan ht
  · rename_i hcase
    rw [Bool.not_eq_true] at hcase
    -- behind a path a name starts with a letter that has case; with any other nothing is read
    cases hread : read? (dotted (s :: ss) ++ "." ++ name) with
    | none => rfl
    | some q =>
      rcases exists_of_read? hread with ⟨t, hscan, -⟩
      exact absurd hscan (Token.scan_reference_ne_ok hsegments hname hcase [t])

end QualifiedName

/-! ## Qualified names -/

namespace Context

variable {text name : String} {m : Module} {k : Knowledge} {ignored : List TypeName} {ctx : Context}
  {i : Import}

/-- What a fix writes for an exposed name of an imported module is read back to this name in two
cases. Either the name alone means it and no variable shadows the name, or the name can stand
behind a qualifier, and no module that goes before its own under the qualifier exposes it too. -/
theorem qualify_means_iff (hm : Module.parse text = .ok m)
    (hctx : ctx.module = ModuleContext.ofModule m k ignored) (hi : i ∈ m.allImports)
    (hexposes : k.exposes i.path.value name)
    (hname : QualifiedName.read? name = some (.bare name)) :
    (QualifiedName.read? (ctx.qualify i.path.value name)).bind ctx.resolve =
        some ⟨i.path.value, name⟩ ↔
      name ∉ ctx.scope ∧ (Lookup.ofModule m k).moduleOfBare name = some i.path.value ∨
      startsWithCase name ∧ (m.importOf? i.path.value).bind (m.exposer? k ·.qualifier name) =
        some i.path.value := by
  have hlookup : ctx.module.lookup = Lookup.ofModule m k := by rw [hctx]; rfl
  by_cases hbare : name ∉ ctx.scope ∧ (Lookup.ofModule m k).moduleOfBare name = some i.path.value
  -- the name is written alone, and it means the value
  · have hresolve : ctx.resolve (.bare name) = some ⟨i.path.value, name⟩ := by
      rw [resolve, if_neg (by simpa [QualifiedName.bare] using fun _ => hbare.1), hlookup,
        Lookup.resolve_bare, hbare.2]
      rfl
    rw [qualify, hlookup, Lookup.qualify_of_bare hbare.1 hbare.2,
      show (QualifiedName.bare name).render = name from rfl, hname, Option.bind_some, hresolve]
    exact iff_of_true rfl (.inl hbare)
  -- the name is written behind a qualifier, where the first import that exposes it decides
  · rcases Module.exists_importOf? hi with ⟨j, hj, hmem, hpath⟩
    rcases Module.exists_exposer? hmem (hpath.symm ▸ hexposes) with ⟨path, howner⟩
    have hproper := Module.qualifier_proper hm hmem
    have hqualified : QualifiedName.isQualified ⟨j.qualifier, name⟩ := by
      simpa [QualifiedName.isQualified, ModuleName.isEmpty] using hproper.1
    have hresolve : ctx.resolve ⟨j.qualifier, name⟩ = some ⟨path, name⟩ := by
      rw [resolve, if_neg (by simp [hqualified]), hlookup,
        Lookup.resolve_qualified hqualified howner]
    have hword := QualifiedName.isWord_of_read? hname
    rw [qualify, hlookup, Lookup.qualify_of_not_bare hbare hj,
      QualifiedName.read?_render hproper hword, hj, Option.bind_some, howner]
    cases startsWithCase name with
    | true => simp [hresolve, hbare]
    | false => simp [hbare]

/-- A short name that no other import shares leads back to its module. -/
theorem qualify_means_short_name : ∃ m, Module.parse "import List as L\nx = 1\n" = .ok m ∧
    ∀ ctx : Context, ctx.module = ModuleContext.ofModule m ProjectIndex.core.knowledge [] →
      (QualifiedName.read? (ctx.qualify Core.list "concat")).bind ctx.resolve =
        some ⟨Core.list, "concat"⟩ := by
  have hcheck : (Module.parse "import List as L\nx = 1\n").toOption.any (fun m =>
      (m.importOf? Core.list).bind (m.exposer? ProjectIndex.core.knowledge ·.qualifier "concat") ==
        some Core.list) = true := by decide +kernel
  rcases exists_ok_of_any hcheck with ⟨m, hm, howner⟩
  have hlist : Core.implicit Core.list none (some (.only [.type "List" false, .operator "::"])) ∈
      m.allImports := List.mem_append_left _ (by decide)
  refine ⟨m, hm, fun ctx hctx => ?_⟩
  exact (qualify_means_iff hm hctx hlist (by decide +kernel) (by decide +kernel)).mpr
    (.inr ⟨by decide +kernel, eq_of_beq howner⟩)

/-- Where two modules share a qualifier, a name that is written for the second one is read as a name
of the first. -/
theorem qualify_shared_qualifier :
    ∃ m, Module.parse
        "module A exposing (..)\nimport List.Extra as L\nimport List as L\nx = 1\n" = .ok m ∧
      let k := (ProjectIndex.ofProject [m]
        [(Interface.empty ⟨["List", "Extra"]⟩).withValues ["concat"]]).knowledge
      let ctx : Context := ⟨ModuleContext.ofModule m k [], [], true⟩
      (∃ i ∈ m.allImports, i.path.value = Core.list) ∧ k.exposes Core.list "concat" ∧
        (QualifiedName.read? (ctx.qualify Core.list "concat")).bind ctx.resolve =
          some ⟨⟨["List", "Extra"]⟩, "concat"⟩ := by
  have hcheck : (Module.parse
      "module A exposing (..)\nimport List.Extra as L\nimport List as L\nx = 1\n").toOption.any
      (fun m =>
        let k := (ProjectIndex.ofProject [m]
          [(Interface.empty ⟨["List", "Extra"]⟩).withValues ["concat"]]).knowledge
        let ctx : Context := ⟨ModuleContext.ofModule m k [], [], true⟩
        k.exposes Core.list "concat" &&
          (QualifiedName.read? (ctx.qualify Core.list "concat")).bind ctx.resolve ==
            some ⟨⟨["List", "Extra"]⟩, "concat"⟩) = true := by decide +kernel
  rcases exists_ok_of_any hcheck with ⟨m, hm, htest⟩
  dsimp only at htest
  rw [Bool.and_eq_true] at htest
  refine ⟨m, hm, ?_, htest.1, eq_of_beq htest.2⟩
  exact ⟨_, List.mem_append_left m.imports (List.mem_cons_of_mem _ List.mem_cons_self), rfl⟩

end Context

end Terse
