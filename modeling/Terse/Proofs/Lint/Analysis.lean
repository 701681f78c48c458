import Mathlib.Data.List.Flatten
import Mathlib.Data.List.Perm.Subperm
import Mathlib.Tactic.Order
import Terse.Lint.Simplifier
import Terse.Proofs.Lint.Node

/-!
# The findings of a module can be applied together

The analysis keeps a finding only if its edits stay apart from the edits of all findings before
it. So the edits of all findings stay apart from each other, whichever of them are chosen, and any
choice can be applied at once.
-/

namespace Terse

/-! ## Sites are nodes -/

namespace Expr

mutual

theorem map_expr_sites (scope : List String) (isFree : Bool) (e : Expr) :
    (e.sites scope isFree).map Site.expr = e.nodes := by
  cases e with
  | unit | literal | var | operatorFn | accessor => simp [sites, nodes]
  | app _ fn args =>
    simp [sites, nodes, map_expr_sites scope false fn, map_expr_sitesOfAll scope false args]
  | binary _ _ left right =>
    simp [sites, nodes, map_expr_sites scope false left, map_expr_sites scope false right]
  | negate _ inner => simp [sites, nodes, map_expr_sites scope false inner]
  | paren _ inner => simp [sites, nodes, map_expr_sites scope true inner]
  | list _ items | tuple _ items => simp [sites, nodes, map_expr_sitesOfAll scope true items]
  | record _ setters | update _ _ setters =>
    simp [sites, nodes, map_expr_sitesOfSetters scope setters]
  | access _ owner _ => simp [sites, nodes, map_expr_sites scope false owner]
  | cond _ condition thenBranch elseBranch =>
    simp [sites, nodes, map_expr_sites scope true condition, map_expr_sites scope true thenBranch,
      map_expr_sites scope true elseBranch]
  | case _ scrutinee branches =>
    simp [sites, nodes, map_expr_sites scope true scrutinee,
      map_expr_sitesOfBranches scope branches]
  | lambda _ params body =>
    simp [sites, nodes, map_expr_sites (scope ++ Pattern.boundVarsAll params) true body]

theorem map_expr_sitesOfAll (scope : List String) (isFree : Bool) (es : List Expr) :
    (sitesOfAll scope isFree es).map Site.expr = nodesOfAll es := by
  cases es with
  | nil => simp [sitesOfAll, nodesOfAll]
  | cons e es =>
    simp [sitesOfAll, nodesOfAll, map_expr_sites scope isFree e,
      map_expr_sitesOfAll scope isFree es]

theorem map_expr_sitesOfSetters (scope : List String) (ss : List Setter) :
    (sitesOfSetters scope ss).map Site.expr = nodesOfSetters ss := by
  match ss with
  | [] => simp [sitesOfSetters, nodesOfSetters]
  | .mk field value :: ss =>
    simp [sitesOfSetters, nodesOfSetters, map_expr_sites scope true value,
      map_expr_sitesOfSetters scope ss]

theorem map_expr_sitesOfBranches (scope : List String) (bs : List Branch) :
    (sitesOfBranches scope bs).map Site.expr = nodesOfBranches bs := by
  match bs with
  | [] => simp [sitesOfBranches, nodesOfBranches]
  | .mk pattern body :: bs =>
    simp [sitesOfBranches, nodesOfBranches, map_expr_sites (scope ++ pattern.boundVars) true body,
      map_expr_sitesOfBranches scope bs]

end

end Expr

/-- The sites of a module are the nodes of the bodies of its values. -/
theorem Module.map_expr_sites (m : Module) :
    m.sites.map Site.expr = m.values.flatMap fun v => v.body.nodes := by
  simp [sites, ValueDecl.sites, List.map_flatMap, Expr.map_expr_sites]

/-! ## One step of the analysis -/

variable {place : Location → Prop}

/-- Ranges that are not inverted do not touch when they stay apart. -/
theorem Range.touches_eq_false_iff {a b : Range} (ha : a.start ≤ a.stop) (hb : b.start ≤ b.stop) :
    a.touches b = false ↔ Apart a.span b.span := by
  rcases a with ⟨a1, a2⟩
  rcases b with ⟨b1, b2⟩
  unfold touches overlaps isEmpty Apart span
  dsimp only at *
  grind

namespace Progress

/-- The findings so far: their edits have places in the text and stay apart, and the ranges that
are consumed are the ranges of these edits. -/
structure Sound (place : Location → Prop) (p : Progress) : Prop where
  consumed : p.consumed = (p.findings.flatMap Finding.edits).map Edit.range
  fits : ∀ f ∈ p.findings, ∃ whole, f.Fits place whole
  apart : (p.findings.flatMap Finding.edits).Pairwise fun a b => Apart a.range.span b.range.span

theorem sound_start : start.Sound place :=
  ⟨rfl, by simp [start], List.Pairwise.nil⟩

variable {p : Progress}

section

variable (h : p.Sound place)
include h

theorem Sound.record {f : Finding} {whole : Range} (hf : f.Fits place whole) :
    (p.record f).Sound place := by
  unfold Progress.record
  split
  · exact h
  · rename_i hfree
    have hfix := hf.fixFits
    rw [hf.checked_eq]
    refine ⟨?_, ?_, ?_⟩
    · simp [h.consumed, Finding.editRanges]
    · intro g hg
      rcases List.mem_append.mp hg with hg | hg
      · exact h.fits g hg
      · rcases List.mem_singleton.mp hg with rfl
        exact ⟨whole, hf⟩
    · rw [List.flatMap_append, List.flatMap_singleton, List.pairwise_append]
      refine ⟨h.apart, hfix.apart, ?_⟩
      intro a ha b hb
      rcases List.mem_flatMap.mp ha with ⟨g, hg, ha'⟩
      rcases h.fits g hg with ⟨whole', hgFits⟩
      apply (Range.touches_eq_false_iff (hgFits.fixFits.fits a ha').le (hfix.fits b hb).le).mp
      -- the edit would be consumed otherwise
      by_contra htouches
      apply hfree
      rw [List.any_eq_true]
      refine ⟨b.range, List.mem_map_of_mem hb, ?_⟩
      unfold isConsumed
      rw [List.any_eq_true, h.consumed]
      exact ⟨a.range, List.mem_map_of_mem ha, by simpa using htouches⟩

theorem Sound.visit {rules : List Rule} (hrules : rules ⊆ Rule.all) (m : ModuleContext)
    {site : Site} (hsite : site.expr.Nested place) : (p.visit rules m site).Sound place := by
  unfold Progress.visit
  split
  · exact h
  · split
    · rename_i f hf
      exact h.record (Rule.firstFinding_fits hrules _ hsite f hf)
    · exact h

/-- What holds after each site holds after all of them. -/
theorem Sound.foldl_visit {rules : List Rule} (hrules : rules ⊆ Rule.all) (m : ModuleContext)
    {sites : List Site} (hsites : ∀ s ∈ sites, s.expr.Nested place) :
    (sites.foldl (Progress.visit rules m) p).Sound place := by
  induction sites generalizing p with
  | nil => exact h
  | cons site sites ih =>
    rw [List.forall_mem_cons] at hsites
    exact ih (h.visit hrules m hsites.1) hsites.2

end

/-- What was reported stays reported, in its order. -/
theorem findings_prefix_visit (rules : List Rule) (m : ModuleContext) (site : Site) :
    p.findings <+: (p.visit rules m site).findings := by
  unfold Progress.visit
  split
  · exact List.prefix_rfl
  · split
    · unfold Progress.record
      split
      · exact List.prefix_rfl
      · exact List.prefix_append _ _
    · exact List.prefix_rfl

theorem findings_prefix_foldl (rules : List Rule) (m : ModuleContext) (sites : List Site) :
    p.findings <+: (sites.foldl (Progress.visit rules m) p).findings := by
  induction sites generalizing p with
  | nil => exact List.prefix_rfl
  | cons site sites ih => exact (findings_prefix_visit rules m site).trans ih

/-- Nothing is consumed at the start, so the first thing that is found is reported. -/
theorem head?_findings {rules : List Rule} (hrules : rules ⊆ Rule.all) (m : ModuleContext)
    {sites : List Site} (hsites : ∀ s ∈ sites, s.expr.Nested place) :
    (sites.foldl (Progress.visit rules m) start).findings.head? =
      sites.findSome? fun s => Rule.firstFinding rules ⟨m, s.scope, s.isFree⟩ s.expr := by
  induction sites with
  | nil => rfl
  | cons site sites ih =>
    rw [List.forall_mem_cons] at hsites
    rw [List.foldl_cons, List.findSome?_cons]
    cases hfound : Rule.firstFinding rules ⟨m, site.scope, site.isFree⟩ site.expr with
    | none =>
      have hvisit : start.visit rules m site = start := by
        simp [Progress.visit, isConsumed, start, hfound]
      rw [hvisit]
      exact ih hsites.2
    | some f =>
      have hchecked := (Rule.firstFinding_fits hrules _ hsites.1 f hfound).checked_eq
      have hvisit : (start.visit rules m site).findings = [f] := by
        simp [Progress.visit, Progress.record, isConsumed, start, hfound, hchecked]
      -- what is found later comes behind it
      rcases findings_prefix_foldl (p := start.visit rules m site) rules m sites with
        ⟨later, hlater⟩
      rw [← hlater, hvisit]
      rfl

end Progress

/-! ## All findings of a module -/

/-- The sites of a module that was read from a text are nested in that text. -/
theorem Module.site_nested {text : String} {m : Module} (hm : Module.parse text = .ok m)
    {site : Site} (hsite : site ∈ m.sites) :
    site.expr.Nested (SourceText.ofString text).HasPlace := by
  have hmem : site.expr ∈ m.sites.map Site.expr := List.mem_map_of_mem hsite
  rw [Module.map_expr_sites] at hmem
  rcases List.mem_flatMap.mp hmem with ⟨v, hv, he⟩
  exact Module.node_nested hm hv he

theorem Simplifier.rules_subset {c : Config} {s : Simplifier}
    (h : Simplifier.ofConfig c = .ok s) : s.rules ⊆ Rule.all := by
  rcases bind_ok_iff.mp h with ⟨types, -, h⟩
  cases h
  exact List.filter_sublist.subset

/-- The enabled rules run, in the order of their codes. -/
theorem Simplifier.rules_eq {c : Config} {s : Simplifier} (h : Simplifier.ofConfig c = .ok s) :
    s.rules = (RuleCode.all.filter c.isEnabled).map Rule.ofCode := by
  rcases bind_ok_iff.mp h with ⟨types, -, h⟩
  cases h
  simp only [Rule.all, List.filter_map, Function.comp_def, Rule.code_ofCode]

/-- The edits of the findings of a module have places in its text and stay apart. -/
theorem Simplifier.analyzeModule_sound {text : String} {m : Module} {c : Config} {s : Simplifier}
    (hm : Module.parse text = .ok m) (hs : Simplifier.ofConfig c = .ok s) (knowledge : Knowledge) :
    ∃ p : Progress, p.findings = s.analyzeModule m knowledge ∧
      p.Sound (SourceText.ofString text).HasPlace := by
  refine ⟨_, rfl, Progress.sound_start.foldl_visit (rules_subset hs) _ ?_⟩
  intro site hsite
  exact Module.site_nested hm hsite

/-- The first thing that is found in a module is reported, as it was found. -/
theorem Simplifier.head?_analyzeModule {text : String} {m : Module} {c : Config} {s : Simplifier}
    (hm : Module.parse text = .ok m) (hs : Simplifier.ofConfig c = .ok s) (knowledge : Knowledge) :
    (s.analyzeModule m knowledge).head? = m.sites.findSome? fun site =>
      Rule.firstFinding s.rules
        ⟨ModuleContext.ofModule m knowledge s.ignoredTypes, site.scope, site.isFree⟩
        site.expr := by
  apply Progress.head?_findings (rules_subset hs)
  intro site hsite
  exact Module.site_nested hm hsite

/-- Findings that were found together can be applied at once, in any choice and in any order. -/
theorem Progress.Sound.applyFixes_ok {text : String} {p : Progress}
    (h : p.Sound (SourceText.ofString text).HasPlace) {chosen : List Finding}
    (hchosen : chosen.Subperm p.findings) : ∃ t, applyFixes text chosen = .ok t := by
  rcases hchosen with ⟨inOrder, hperm, hsub⟩
  have hadmits : ∀ e ∈ chosen.flatMap Finding.edits, (SourceText.ofString text).Admits e := by
    intro e he
    rcases List.mem_flatMap.mp he with ⟨f, hf, he⟩
    rcases h.fits f (hsub.subset (hperm.mem_iff.mpr hf)) with ⟨whole, hfits⟩
    exact SourceText.admits_of_fits (hfits.fixFits.fits e he)
  have hapart : (chosen.flatMap Finding.edits).Pairwise
      fun a b => Apart a.range.span b.range.span :=
    ((hperm.flatMap_right Finding.edits).pairwise_iff apart_symm).mp
      (h.apart.sublist (hsub.flatMap Finding.edits))
  rcases SourceText.exists_apply_eq_ok hadmits hapart with ⟨t, ht⟩
  exact ⟨t.text, map_ok_iff.mpr ⟨t, ht, rfl⟩⟩

/-- Any choice of the findings of a module can be applied to its text at once; so can all of them,
and each of them alone. -/
theorem chosen_fixes_apply {text : String} {m : Module} {c : Config} {s : Simplifier}
    (hm : Module.parse text = .ok m) (hs : Simplifier.ofConfig c = .ok s) (knowledge : Knowledge) :
    (∀ chosen : List Finding, chosen.Subperm (s.analyzeModule m knowledge) →
      ∃ t, applyFixes text chosen = .ok t) ∧
      (∃ t, s.fixModule m knowledge = .ok t) ∧
      ∀ f ∈ s.analyzeModule m knowledge, ∃ t, f.applyTo text = .ok t := by
  rcases Simplifier.analyzeModule_sound hm hs knowledge with ⟨p, hp, hsound⟩
  rw [← hp]
  refine ⟨fun chosen h => hsound.applyFixes_ok h, ?_, ?_⟩
  · have htext : m.source.text = text := by
      rw [(Module.parse_nested hm).1]
      exact String.ofList_toList
    unfold Simplifier.fixModule
    rw [htext, ← hp]
    exact hsound.applyFixes_ok (List.Subperm.refl _)
  · intro f hf
    rcases hsound.applyFixes_ok (List.singleton_subperm_iff.mpr hf) with ⟨t, ht⟩
    refine ⟨t, ?_⟩
    rw [applyFixes, List.flatMap_singleton] at ht
    exact ht

/-! ## Analysis of a given text -/

/-- A text can be read and analyzed under the default configuration, and passes a test. -/
def passesByDefault (source : String) (test : Module → Simplifier → Bool) : Bool :=
  match Module.parse source, Simplifier.ofConfig .default with
  | .ok m, .ok s => test m s
  | _, _ => false

theorem exists_of_passesByDefault {source : String} {test : Module → Simplifier → Bool}
    (h : passesByDefault source test = true) :
    ∃ m s, Module.parse source = .ok m ∧ Simplifier.ofConfig .default = .ok s ∧
      test m s = true := by
  unfold passesByDefault at h
  split at h
  · rename_i m s hm hs
    exact ⟨m, s, hm, hs, h⟩
  · contradiction

/-- Three findings of one module are applied together. -/
theorem chosen_fixes_apply_nested_negation :
    ∃ m s, Module.parse "x y =\n    not (not (y && True)) || (y || y)\n" = .ok m ∧
      Simplifier.ofConfig .default = .ok s ∧
      (s.analyzeModule m ProjectIndex.core.knowledge).length = 3 ∧
      ∃ t, s.fixModule m ProjectIndex.core.knowledge = .ok t := by
  have hcount : passesByDefault "x y =\n    not (not (y && True)) || (y || y)\n"
      (fun m s => (s.analyzeModule m ProjectIndex.core.knowledge).length = 3) = true := by
    decide +kernel
  rcases exists_of_passesByDefault hcount with ⟨m, s, hm, hs, hlength⟩
  exact ⟨m, s, hm, hs, of_decide_eq_true hlength, (chosen_fixes_apply hm hs _).2.1⟩

end Terse
