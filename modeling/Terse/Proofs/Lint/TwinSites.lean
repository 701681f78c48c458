import Terse.Proofs.Lint.Analysis
import Terse.Proofs.Lint.Site
import Terse.Proofs.Tree.Unplaced
import Terse.Proofs.View.Twin

/-!
# Modules that differ in parentheses

Two modules are twins when what the analysis reads of them is the same apart from places and from
parentheses that group nothing. Names mean the same in both. The sites that are no parentheses
correspond one by one, in the same scopes, and those below or behind a site do so on both sides.
-/

namespace Terse

/-! ## Sites without parentheses -/

namespace Expr

/-- The direct parts of forms that bind nothing are entered without any variables. -/
theorem entered_eq {e : Expr} (hlambda : e.form ≠ .lambda) (hcase : e.form ≠ .case) :
    e.entered = e.children.map fun c => ([], c) := by
  cases e with
  | lambda => exact absurd rfl hlambda
  | case => exact absurd rfl hcase
  | _ => rfl

/-- Twins enter their parts with the same variables. -/
theorem Twin.entered {e e' : Expr} (h : e.Twin e') (he : e.isBare = true)
    (he' : e'.isBare = true) :
    List.Forall₂ (fun p p' => p.1 = p'.1 ∧ p.2.Twin p'.2) e.entered e'.entered := by
  have hform := h.form_eq he he'
  -- twins have one form, so both bind around their parts or neither does
  by_cases hlambda : e.form = .lambda
  · cases e with
    | lambda r params body =>
      rcases h.facing.of_lambda he' with ⟨r', params', body', rfl, hparams, hbody⟩
      have hvars : Pattern.boundVarsAll params = Pattern.boundVarsAll params' := by
        rw [← Pattern.boundVarsAll_erase, hparams, Pattern.boundVarsAll_erase]
      exact .cons ⟨hvars, hbody.twin⟩ .nil
    | _ => cases hlambda
  by_cases hcase : e.form = .case
  · cases e with
    | case r scrutinee branches =>
      rcases h.facing.of_case he' with ⟨r', scrutinee', branches', rfl, hscrutinee, hbranches⟩
      refine .cons ⟨rfl, hscrutinee.twin⟩ ?_
      rw [List.forall₂_map_left_iff, List.forall₂_map_right_iff]
      refine hbranches.imp fun b b' hb => ⟨?_, hb.2.twin⟩
      rw [← Pattern.boundVars_erase, hb.1, Pattern.boundVars_erase]
    | _ => cases hcase
  · rw [entered_eq hlambda hcase, entered_eq (hform ▸ hlambda) (hform ▸ hcase),
      List.forall₂_map_left_iff, List.forall₂_map_right_iff]
    exact (h.parts he he').2.imp fun _ _ h => ⟨rfl, h⟩

end Expr

namespace Site

/-- The sites in a site that are no parentheses. -/
def bare (s : Site) : List Site := s.all.filter fun x => x.expr.isBare

/-- Two sites are in the same scope, and their expressions are twins. -/
structure Twin (s s' : Site) : Prop where
  scope : s.scope = s'.scope
  expr : s.expr.Twin s'.expr

/-- A site outside parentheses is followed by the sites in its parts. -/
theorem bare_of_isBare {s : Site} (h : s.expr.isBare = true) :
    s.bare = s :: s.parts.flatMap bare := by
  rw [bare, all_eq, List.filter_cons, if_pos h, List.filter_flatMap]
  rfl

/-- Parentheses have the sites of what they enclose. -/
theorem bare_paren (r : Range) (inner : Expr) (scope : List String) (isFree : Bool) :
    bare ⟨.paren r inner, scope, isFree⟩ = bare ⟨inner, scope, true⟩ := by
  rw [bare, all_eq, List.filter_cons_of_neg (by simp [Expr.isBare])]
  simp [parts, Expr.entered, Expr.children, Expr.childrenAreFree, bare]

theorem exists_bare_stripParens (e : Expr) (scope : List String) (isFree : Bool) :
    ∃ free, bare ⟨e, scope, isFree⟩ = bare ⟨e.stripParens, scope, free⟩ := by
  induction e using Expr.induction_on_children generalizing isFree with
  | step e ih =>
    cases e with
    | paren r inner =>
      rw [bare_paren]
      exact ih inner (List.mem_singleton.mpr rfl) true
    | _ => exact ⟨isFree, rfl⟩

/-- The sites in twins that are no parentheses are twins one by one. -/
theorem Twin.bare {s s' : Site} (h : s.Twin s') : List.Forall₂ Twin s.bare s'.bare := by
  rcases s with ⟨e, scope, isFree⟩
  induction e using Expr.induction_on_children generalizing scope isFree s' with
  | step e ih =>
    by_cases hbare : e.isBare = true
    · rcases s' with ⟨e', scope', isFree'⟩
      -- a site that is no parenthesis faces the other site with its parentheses taken off
      obtain ⟨free, heq⟩ := exists_bare_stripParens e' scope' isFree'
      have hbare' := e'.isBare_stripParens
      have htwin : e.Twin e'.stripParens := by
        rw [← Expr.stripParens_of_isBare hbare]
        exact h.expr.stripParens
      have hscope : scope = scope' := h.scope
      rw [heq, bare_of_isBare hbare, bare_of_isBare hbare']
      refine .cons ⟨hscope, htwin⟩ (List.rel_flatMap ?_ fun _ _ hp => hp)
      have hentered := htwin.entered hbare hbare'
      rw [parts, parts, List.forall₂_map_left_iff, List.forall₂_map_right_iff]
      rw [List.forall₂_iff_zip] at hentered ⊢
      refine ⟨hentered.1, fun {p p'} hp => ?_⟩
      have hmem : p.2 ∈ e.children := by
        rw [← e.map_snd_entered]
        exact List.mem_map_of_mem (List.of_mem_zip hp).1
      rcases hentered.2 hp with ⟨hvars, hparts⟩
      exact ih p.2 hmem _ _ ⟨by rw [hscope, hvars], hparts⟩
    · cases e with
      | paren r inner =>
        rw [bare_paren]
        exact ih inner (List.mem_singleton.mpr rfl) scope true ⟨h.scope, h.expr.of_paren⟩
      | _ => exact absurd rfl hbare

end Site

/-! ## Modules -/

/-- The import without its places. -/
def Import.unplaced (i : Import) : Import := { i with path := i.path.unplaced }

/-- The custom type without its places. -/
def CustomType.unplaced (t : CustomType) : CustomType :=
  ⟨t.name.unplaced, t.constructors.map Located.unplaced⟩

/-- The value without its places and parentheses. -/
def ValueDecl.erase (v : ValueDecl) : ValueDecl :=
  ⟨v.name.unplaced, Pattern.eraseAll v.params, v.body.erase⟩

/-- The declaration without its places and parentheses. -/
def Declaration.erase : Declaration → Declaration
  | .value v => .value v.erase
  | .customType t => .customType t.unplaced

/-- The module without its places and parentheses, and without its text. -/
def Module.erase (m : Module) : Module where
  name := m.name.unplaced
  exposing := m.exposing
  imports := m.imports.map Import.unplaced
  declarations := m.declarations.map Declaration.erase
  source := default

/-- Two modules are the same apart from places and from parentheses that group nothing. -/
structure Module.Twin (m m' : Module) : Prop where
  erase : m.erase = m'.erase
  groups : m.values.map (·.body.groups) = m'.values.map (·.body.groups)

/-- Two values have the same name and the same parameters, and their bodies are twins. -/
structure ValueDecl.Twin (v v' : ValueDecl) : Prop where
  name : v.name.value = v'.name.value
  params : Pattern.eraseAll v.params = Pattern.eraseAll v'.params
  body : v.body.Twin v'.body

namespace Module

/-- Erasing a module erases each of its values. -/
theorem values_erase (m : Module) : m.erase.values = m.values.map ValueDecl.erase := by
  rw [values, erase, List.filterMap_map, values, List.map_filterMap]
  congr 1
  funext d
  cases d <;> rfl

theorem customTypes_erase (m : Module) :
    m.erase.customTypes = m.customTypes.map CustomType.unplaced := by
  rw [customTypes, erase, List.filterMap_map, customTypes, List.map_filterMap]
  congr 1
  funext d
  cases d <;> rfl

namespace Twin

variable {m m' : Module} (h : m.Twin m')
include h

theorem name : m.name.value = m'.name.value := by
  have hname : m.erase.name.value = m'.erase.name.value := by rw [h.erase]
  exact hname

/-- Twin modules have the same imports, up to places. -/
theorem imports : m.imports.map Import.unplaced = m'.imports.map Import.unplaced := by
  have himports : m.erase.imports = m'.erase.imports := by rw [h.erase]
  exact himports

/-- Twin modules declare the same constructors. -/
theorem constructors : m.customTypes.map CustomType.constructorNames =
    m'.customTypes.map CustomType.constructorNames := by
  have hnames : ∀ t : CustomType, t.unplaced.constructorNames = t.constructorNames := by
    intro t
    rw [CustomType.constructorNames, CustomType.unplaced, List.map_map]
    rfl
  have htypes : m.erase.customTypes.map CustomType.constructorNames =
      m'.erase.customTypes.map CustomType.constructorNames := by
    rw [h.erase]
  rw [customTypes_erase, customTypes_erase, List.map_map, List.map_map] at htypes
  simpa only [Function.comp_def, hnames] using htypes

/-- The values of twins are twins one by one. -/
theorem values : List.Forall₂ ValueDecl.Twin m.values m'.values := by
  have hvalues : m.values.map ValueDecl.erase = m'.values.map ValueDecl.erase := by
    rw [← values_erase, ← values_erase, h.erase]
  have hgroups := h.groups
  rw [← List.forall₂_eq_eq_eq, List.forall₂_map_left_iff, List.forall₂_map_right_iff,
    List.forall₂_iff_zip] at hvalues hgroups
  rw [List.forall₂_iff_zip]
  refine ⟨hvalues.1, fun {v v'} hv => ?_⟩
  have herase := hvalues.2 hv
  simp only [ValueDecl.erase, Located.unplaced, ValueDecl.mk.injEq, Located.mk.injEq,
    and_true] at herase
  exact ⟨herase.1, herase.2.1, herase.2.2, hgroups.2 hv⟩

end Twin

end Module

namespace Lookup

variable (imports : List Import)

theorem exposedBy_unplaced (knowledge : Knowledge) :
    exposedBy knowledge (imports.map Import.unplaced) = exposedBy knowledge imports := by
  rw [exposedBy, List.foldl_map]
  rfl

theorem openBy_unplaced : openBy (imports.map Import.unplaced) = openBy imports := by
  rw [openBy, List.filter_map, List.map_map]
  rfl

theorem aliases_unplaced :
    AliasTable.ofImports (imports.map Import.unplaced) = AliasTable.ofImports imports := by
  rw [AliasTable.ofImports, AliasTable.ofImports, List.foldl_append, List.foldl_append,
    List.foldl_map]
  rfl

/-- The qualifier of an import does not depend on where it is written. -/
theorem findImport_unplaced (path : ModuleName) (name : String) :
    ((imports.map Import.unplaced).find? (·.path.value == path)).map
        (fun i => (⟨i.qualifier, name⟩ : QualifiedName)) =
      (imports.find? (·.path.value == path)).map fun i => ⟨i.qualifier, name⟩ := by
  rw [List.find?_map, Option.map_map]
  rfl

end Lookup

namespace Module.Twin

variable {m m' : Module} (h : m.Twin m') (knowledge : Knowledge)
include h

/-- Lookups in twins differ only in the places of the imports. -/
theorem lookup : Lookup.ofModule m' knowledge =
    { Lookup.ofModule m knowledge with imports := m'.imports ++ Core.defaultImports } := by
  have hall : (Core.defaultImports ++ m.imports).map Import.unplaced =
      (Core.defaultImports ++ m'.imports).map Import.unplaced := by
    rw [List.map_append, List.map_append, h.imports]
  have hnames : m.values.map (·.name.value) = m'.values.map (·.name.value) := by
    rw [← List.forall₂_eq_eq_eq, List.forall₂_map_left_iff, List.forall₂_map_right_iff]
    exact h.values.imp fun _ _ hv => hv.name
  have hlocals : m.customTypes.flatMap CustomType.constructorNames =
      m'.customTypes.flatMap CustomType.constructorNames := by
    rw [List.flatMap_def, List.flatMap_def, h.constructors]
  have haliases : AliasTable.ofImports m.imports = AliasTable.ofImports m'.imports := by
    rw [← Lookup.aliases_unplaced, h.imports, Lookup.aliases_unplaced]
  have hexposed : Lookup.exposedBy knowledge (Core.defaultImports ++ m.imports) =
      Lookup.exposedBy knowledge (Core.defaultImports ++ m'.imports) := by
    rw [← Lookup.exposedBy_unplaced, hall, Lookup.exposedBy_unplaced]
  have hopen : Lookup.openBy (Core.defaultImports ++ m.imports) =
      Lookup.openBy (Core.defaultImports ++ m'.imports) := by
    rw [← Lookup.openBy_unplaced, hall, Lookup.openBy_unplaced]
  -- each table of the lookup reads the module through what the twins share
  unfold Lookup.ofModule
  dsimp only
  rw [h.name, hnames, hlocals, haliases, hexposed, hopen]

/-- Names mean the same in twin modules. -/
theorem resolve : (Lookup.ofModule m' knowledge).resolve = (Lookup.ofModule m knowledge).resolve := by
  rw [h.lookup]
  rfl

/-- Names are written in the same way in twin modules. -/
theorem qualify : (Lookup.ofModule m' knowledge).qualify = (Lookup.ofModule m knowledge).qualify := by
  have himports : (m'.imports ++ Core.defaultImports).map Import.unplaced =
      (m.imports ++ Core.defaultImports).map Import.unplaced := by
    rw [List.map_append, List.map_append, h.imports]
  funext path name shadowed
  rw [h.lookup]
  unfold Lookup.qualify Lookup.reference?
  dsimp only
  rw [← Lookup.findImport_unplaced, himports, Lookup.findImport_unplaced]
  rfl

/-- At the same place of twins, contexts differ only in the text and in whether the node stands
free. -/
theorem agrees (ignoredTypes : List TypeName) (scope : List String) (isFree isFree' : Bool) :
    Context.Agrees
      (Context.moved ⟨ModuleContext.ofModule m knowledge ignoredTypes, scope, isFree⟩ m'.source
        isFree')
      ⟨ModuleContext.ofModule m' knowledge ignoredTypes, scope, isFree'⟩ where
  source := rfl
  isFree := rfl
  resolve := by
    funext q
    change Context.resolve ⟨ModuleContext.ofModule m knowledge ignoredTypes, scope, isFree⟩ q = _
    unfold Context.resolve
    dsimp only [ModuleContext.ofModule]
    rw [h.resolve]
  qualify := by
    funext path name
    simp only [Context.qualify, Context.moved, ModuleContext.ofModule, h.qualify]
  ignoredTypes := rfl
  typeOf _ _ _ := rfl
  constructorsOf _ _ _ _ _ := rfl

end Module.Twin

/-! ## The sites of modules -/

/-- The sites of a module that are no parentheses. -/
def Module.bareSites (m : Module) : List Site := m.sites.filter fun x => x.expr.isBare

namespace Module

variable {m m' : Module}

theorem bareSites_eq (m : Module) : m.bareSites = m.values.flatMap fun v => v.site.bare := by
  rw [bareSites, sites, List.filter_flatMap]
  rfl

/-- The sites of a module are the nodes of its values, without parentheses. -/
theorem map_expr_bareSites (m : Module) :
    m.bareSites.map Site.expr = (m.values.map ValueDecl.body).flatMap Expr.bareNodes := by
  have hmap : m.bareSites.map Site.expr = (m.sites.map Site.expr).filter Expr.isBare := by
    rw [bareSites, List.filter_map]
    rfl
  rw [hmap, map_expr_sites, List.filter_flatMap, List.flatMap_map]
  rfl

/-- The sites of twins that are no parentheses are twins one by one. -/
theorem Twin.bareSites (h : m.Twin m') : List.Forall₂ Site.Twin m.bareSites m'.bareSites := by
  rw [bareSites_eq, bareSites_eq]
  refine List.rel_flatMap h.values fun v v' hv => Site.Twin.bare ⟨?_, hv.body⟩
  change Pattern.boundVarsAll v.params = Pattern.boundVarsAll v'.params
  rw [← Pattern.boundVarsAll_erase, hv.params, Pattern.boundVarsAll_erase]

/-- Of two pairs of sites, the later one stands below the earlier one, or behind it on both
sides. -/
theorem Twin.precedes (h : m.Twin m') {text text' : String} (hm : Module.parse text = .ok m)
    (hm' : Module.parse text' = .ok m') :
    (m.bareSites.zip m'.bareSites).Pairwise fun p q =>
      Expr.PairPrecedes (p.1.expr, p.2.expr) (q.1.expr, q.2.expr) := by
  rcases Module.parse_bodies hm with ⟨-, stop, hbodies⟩
  rcases Module.parse_bodies hm' with ⟨-, stop', hbodies'⟩
  have hrows : List.Forall₂ (Expr.PairedInOrder (SourceText.ofString text).HasPlace
      (SourceText.ofString text').HasPlace) (m.values.map ValueDecl.body)
      (m'.values.map ValueDecl.body) := by
    have htwins : List.Forall₂ Expr.Twin (m.values.map ValueDecl.body)
        (m'.values.map ValueDecl.body) := by
      rw [List.forall₂_map_left_iff, List.forall₂_map_right_iff]
      exact h.values.imp fun _ _ hv => hv.body
    rw [List.forall₂_iff_zip] at htwins ⊢
    refine ⟨htwins.1, fun {e e'} he => (htwins.2 he).pairedInOrder ?_ ?_⟩
    · exact hbodies.ok_of_mem (List.of_mem_zip he).1
    · exact hbodies'.ok_of_mem (List.of_mem_zip he).2
  have hpairs := Expr.zip_flatMap_precedes hrows (hbodies.pairwise fun _ => Expr.Nested.le)
    (hbodies'.pairwise fun _ => Expr.Nested.le)
  rw [← map_expr_bareSites, ← map_expr_bareSites, List.zip_map, List.pairwise_map] at hpairs
  exact hpairs

end Module

end Terse
