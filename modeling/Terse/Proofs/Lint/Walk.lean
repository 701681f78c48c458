import Terse.Proofs.Lint.Analysis
import Terse.Proofs.Lint.Site

/-!
# What the analysis reports

The analysis passes over a site for one of two reasons only: an earlier fix changes something in
the node, or an earlier fix would clash with the fix of what is found there. All else that is found
is reported, each finding for one site, in the order of the sites.
-/

namespace Terse

namespace Range

theorem touches_self (r : Range) : r.touches r = true := by
  rcases r with ⟨start, stop⟩
  unfold touches overlaps isEmpty
  dsimp only
  grind

/-- A range that is not empty is touched only where it is overlapped. -/
theorem touches_eq_overlaps {a b : Range} (h : b.start < b.stop) : a.touches b = a.overlaps b := by
  simp [touches, isEmpty, not_le.mpr h]

end Range

namespace Finding

/-- The fix changes something in a range. -/
def Rewrites (f : Finding) (r : Range) : Prop := ∃ r' ∈ f.editRanges, r'.overlaps r = true

/-- The fixes of two findings have overlapping edits, or insert at the same place. -/
def ConflictsWith (f g : Finding) : Prop :=
  ∃ r ∈ f.editRanges, ∃ r' ∈ g.editRanges, r.touches r' = true

variable {place : Location → Prop}

theorem Fits.conflictsWith_self {f : Finding} {whole : Range} (h : f.Fits place whole) :
    f.ConflictsWith f := by
  rcases List.exists_mem_of_ne_nil _ h.fixFits.ne_nil with ⟨edit, hedit⟩
  have hmem : edit.range ∈ f.editRanges := List.mem_map_of_mem hedit
  exact ⟨edit.range, hmem, edit.range, hmem, edit.range.touches_self⟩

end Finding

/-! ## One step -/

namespace Progress

variable {place : Location → Prop} {p : Progress}

theorem Sound.isConsumed_iff (h : p.Sound place) {r : Range} :
    p.isConsumed r = true ↔ ∃ g ∈ p.findings, ∃ r' ∈ g.editRanges, r'.touches r = true := by
  rw [isConsumed, List.any_eq_true, h.consumed, List.map_flatMap]
  constructor
  · rintro ⟨r', hr', htouches⟩
    rcases List.mem_flatMap.mp hr' with ⟨g, hg, hr'⟩
    exact ⟨g, hg, r', hr', htouches⟩
  · rintro ⟨g, hg, r', hr', htouches⟩
    exact ⟨r', List.mem_flatMap.mpr ⟨g, hg, hr'⟩, htouches⟩

/-- A node is consumed when an earlier fix changes something in it. -/
theorem Sound.isConsumed_node_iff (h : p.Sound place) {e : Expr} (he : e.Nested place) :
    p.isConsumed e.range = true ↔ ∃ g ∈ p.findings, g.Rewrites e.range := by
  simp only [h.isConsumed_iff, Range.touches_eq_overlaps he.proper.lt]
  rfl

/-- One of the places of a fix is consumed when an earlier fix conflicts with it. -/
theorem Sound.any_isConsumed_iff (h : p.Sound place) {f : Finding} :
    f.editRanges.any p.isConsumed = true ↔ ∃ g ∈ p.findings, g.ConflictsWith f := by
  rw [List.any_eq_true]
  constructor
  · intro ⟨r', hr', hconsumed⟩
    rcases h.isConsumed_iff.mp hconsumed with ⟨g, hg, r, hr, htouches⟩
    exact ⟨g, hg, r, hr, r', hr', htouches⟩
  · intro ⟨g, hg, r, hr, r', hr', htouches⟩
    exact ⟨r', hr', h.isConsumed_iff.mpr ⟨g, hg, r, hr, htouches⟩⟩

/-- A finding is recorded unless an earlier fix clashes with its own. -/
theorem Sound.record_cases (h : p.Sound place) {f : Finding} (hf : f.checked = f) :
    (∃ g ∈ p.findings, g.ConflictsWith f) ∧ (p.record f).findings = p.findings ∨
      (∀ g ∈ p.findings, ¬ g.ConflictsWith f) ∧ (p.record f).findings = p.findings ++ [f] := by
  -- a range is consumed when a finding kept so far has an edit that touches it
  unfold Progress.record
  split
  · rename_i hany
    exact .inl ⟨h.any_isConsumed_iff.mp hany, rfl⟩
  · rename_i hany
    rw [h.any_isConsumed_iff] at hany
    push Not at hany
    rw [hf]
    exact .inr ⟨hany, rfl⟩

variable {rules : List Rule} {m : ModuleContext} {site : Site}

/-- At a site, either the first thing that is found is reported, or nothing is found but what
earlier fixes exclude. -/
theorem Sound.visit_cases (h : p.Sound place) (hrules : rules ⊆ Rule.all)
    (hsite : site.expr.Nested place) :
    (∃ f, Rule.firstFinding rules ⟨m, site.scope, site.isFree⟩ site.expr = some f ∧
        (∀ g ∈ p.findings, ¬ g.Rewrites site.expr.range) ∧
        (∀ g ∈ p.findings, ¬ g.ConflictsWith f) ∧
        (p.visit rules m site).findings = p.findings ++ [f]) ∨
      (p.visit rules m site).findings = p.findings ∧
        ∀ f, Rule.firstFinding rules ⟨m, site.scope, site.isFree⟩ site.expr = some f →
          (∃ g ∈ p.findings, g.Rewrites site.expr.range) ∨
            ∃ g ∈ p.findings, g.ConflictsWith f := by
  have hrewritten := h.isConsumed_node_iff hsite
  unfold Progress.visit
  split
  · rename_i hconsumed
    exact .inr ⟨rfl, fun _ _ => .inl (hrewritten.mp hconsumed)⟩
  · rename_i hconsumed
    rw [hrewritten] at hconsumed
    push Not at hconsumed
    split
    · rename_i f hf
      -- a rule of the list gives edits that fit, so the check before recording drops nothing
      have hchecked := (Rule.firstFinding_fits hrules _ hsite f hf).checked_eq
      rcases h.record_cases hchecked with ⟨hclash, hsame⟩ | ⟨hapart, hnew⟩
      · refine .inr ⟨hsame, ?_⟩
        intro f' hf'
        rw [hf] at hf'
        cases hf'
        exact .inr hclash
      · exact .inl ⟨f, hf, hconsumed, hapart, hnew⟩
    · rename_i hnone
      refine .inr ⟨rfl, ?_⟩
      intro f hf
      rw [hnone] at hf
      cases hf

end Progress

/-! ## Runs -/

/-- What an analysis goes over: sites in a row, with rules that look at each of them. -/
structure Walk where
  rules : List Rule
  context : ModuleContext
  sites : List Site

namespace Walk

/-- What the first rule that reports finds at a site. -/
def findingAt (w : Walk) (site : Site) : Option Finding :=
  Rule.firstFinding w.rules ⟨w.context, site.scope, site.isFree⟩ site.expr

/-- How far the analysis is before it looks at the site of a number. -/
def progress (w : Walk) (i : Nat) : Progress :=
  (w.sites.take i).foldl (Progress.visit w.rules w.context) .start

/-- What has been reported before the site of a number is looked at. -/
def before (w : Walk) (i : Nat) : List Finding := (w.progress i).findings

/-- The finding is what is found at the site of a number; no fix that was reported before changes
something in the node, or conflicts with the fix of the finding. -/
structure Reports (w : Walk) (i : Nat) (site : Site) (f : Finding) : Prop where
  site_eq : w.sites[i]? = some site
  found : w.findingAt site = some f
  kept : ∀ g ∈ w.before i, ¬ g.Rewrites site.expr.range
  apart : ∀ g ∈ w.before i, ¬ g.ConflictsWith f

/-- The rules are known ones, and the nodes were read from a text. -/
structure Sound (w : Walk) (place : Location → Prop) : Prop where
  rules : w.rules ⊆ Rule.all
  sites : ∀ site ∈ w.sites, site.expr.Nested place

variable {w : Walk}

theorem progress_succ {i : Nat} {site : Site} (h : w.sites[i]? = some site) :
    w.progress (i + 1) = (w.progress i).visit w.rules w.context site := by
  rw [progress, List.take_add_one, h, Option.toList_some, List.foldl_append]
  rfl

theorem before_mono {i j : Nat} (h : i ≤ j) : w.before i <+: w.before j := by
  rcases Nat.exists_eq_add_of_le h with ⟨more, rfl⟩
  rw [before, before, progress, progress, List.take_add, List.foldl_append]
  exact Progress.findings_prefix_foldl _ _ _

theorem before_of_none {i : Nat} (h : w.sites[i]? = none) : w.before (i + 1) = w.before i := by
  rw [before, before, progress, progress, List.take_add_one, h, Option.toList_none, List.append_nil]

/-- Behind the last site, nothing more is reported. -/
theorem before_mono_all (i : Nat) : w.before i <+: w.before w.sites.length := by
  rcases Nat.le_total i w.sites.length with hle | hle
  · exact before_mono hle
  · rw [before, before, progress, progress, List.take_of_length_le hle, List.take_length]

variable {place : Location → Prop} (h : w.Sound place)
include h

theorem Sound.progress_sound (i : Nat) : (w.progress i).Sound place := by
  apply Progress.sound_start.foldl_visit h.rules
  intro site hsite
  exact h.sites site (List.mem_of_mem_take hsite)

/-- What is found at a site is added to what was reported before, or excluded by it. -/
theorem Sound.step {i : Nat} {site : Site} (hsite : w.sites[i]? = some site) :
    (∃ f, w.Reports i site f ∧ w.before (i + 1) = w.before i ++ [f]) ∨
      w.before (i + 1) = w.before i ∧ ∀ f, ¬ w.Reports i site f := by
  have hnested := h.sites site (List.mem_of_getElem? hsite)
  rw [before, progress_succ hsite]
  rcases (h.progress_sound i).visit_cases h.rules hnested with
    ⟨f, hf, hkept, hapart, hnew⟩ | ⟨hsame, hexcluded⟩
  · exact .inl ⟨f, ⟨hsite, hf, hkept, hapart⟩, hnew⟩
  · refine .inr ⟨hsame, ?_⟩
    intro f hf
    rcases hexcluded f hf.found with ⟨g, hg, hrewrites⟩ | ⟨g, hg, hconflicts⟩
    · exact hf.kept g hg hrewrites
    · exact hf.apart g hg hconflicts

theorem Sound.before_succ {i : Nat} {site : Site} {f : Finding} (hf : w.Reports i site f) :
    w.before (i + 1) = w.before i ++ [f] := by
  rcases h.step hf.site_eq with ⟨f', hf', hnew⟩ | ⟨-, hnot⟩
  · have heq : f = f' := Option.some.inj (hf.found.symm.trans hf'.found)
    rw [hnew, heq]
  · exact absurd hf (hnot f)

theorem Sound.mem_before {i j : Nat} {site : Site} {f : Finding} (hf : w.Reports i site f)
    (hij : i < j) : f ∈ w.before j := by
  apply (before_mono (Nat.succ_le_of_lt hij)).subset
  rw [h.before_succ hf]
  exact List.mem_append_right _ List.mem_cons_self

/-- What is reported for a site stands behind all that was reported before. -/
theorem Sound.exists_later {i : Nat} {site : Site} {f : Finding} (hf : w.Reports i site f) :
    ∃ later, w.before w.sites.length = w.before i ++ f :: later := by
  rcases before_mono_all (w := w) (i + 1) with ⟨later, hlater⟩
  refine ⟨later, ?_⟩
  rw [← hlater, h.before_succ hf, List.append_assoc, List.singleton_append]

/-- A finding is reported for one site: its fix conflicts with itself. -/
theorem Sound.reports_unique {i j : Nat} {site site' : Site} {f : Finding}
    (hi : w.Reports i site f) (hj : w.Reports j site' f) : i = j := by
  have hself : f.ConflictsWith f := (Rule.firstFinding_fits h.rules _
    (h.sites site (List.mem_of_getElem? hi.site_eq)) f hi.found).conflictsWith_self
  rcases Nat.lt_trichotomy i j with hlt | heq | hgt
  · exact absurd hself (hj.apart f (h.mem_before hi hlt))
  · exact heq
  · exact absurd hself (hi.apart f (h.mem_before hj hgt))

/-- Whatever has been reported was reported for a site before. -/
theorem Sound.exists_reports {i : Nat} {f : Finding} (hf : f ∈ w.before i) :
    ∃ j < i, ∃ site, w.Reports j site f := by
  induction i with
  | zero => cases hf
  | succ i ih =>
    cases hsite : w.sites[i]? with
    | none =>
      rw [before_of_none hsite] at hf
      rcases ih hf with ⟨j, hj, hreports⟩
      exact ⟨j, by omega, hreports⟩
    | some site =>
      -- a step adds the finding of its own site at the end, or nothing
      rcases h.step hsite with ⟨f', hf', hnew⟩ | ⟨hsame, -⟩
      · rw [hnew] at hf
        rcases List.mem_append.mp hf with hf | hf
        · rcases ih hf with ⟨j, hj, hreports⟩
          exact ⟨j, by omega, hreports⟩
        · rcases List.mem_singleton.mp hf with rfl
          exact ⟨i, by omega, site, hf'⟩
      · rw [hsame] at hf
        rcases ih hf with ⟨j, hj, hreports⟩
        exact ⟨j, by omega, hreports⟩

/-- Findings are in the order of the sites that they are reported for. -/
theorem Sound.before_pairwise (i : Nat) :
    (w.before i).Pairwise fun f g =>
      ∀ j k site site', w.Reports j site f → w.Reports k site' g → j < k := by
  induction i with
  | zero => exact List.Pairwise.nil
  | succ i ih =>
    cases hsite : w.sites[i]? with
    | none =>
      rw [before_of_none hsite]
      exact ih
    | some site =>
      rcases h.step hsite with ⟨g, hg, hnew⟩ | ⟨hsame, -⟩
      · rw [hnew, List.pairwise_append]
        refine ⟨ih, List.pairwise_singleton _ _, ?_⟩
        intro f hf g' hg' j k site₁ site₂ hj hk
        rcases List.mem_singleton.mp hg' with rfl
        -- only one step reports a finding, so its number is that of the step that added it
        rcases h.exists_reports hf with ⟨j', hj', _, hreports⟩
        rw [h.reports_unique hj hreports, h.reports_unique hk hg]
        exact hj'
      · rw [hsame]
        exact ih

end Walk

/-! ## Modules -/

/-- The analysis of a module goes over all its sites. -/
def Simplifier.walk (s : Simplifier) (m : Module) (knowledge : Knowledge) : Walk :=
  ⟨s.rules, ModuleContext.ofModule m knowledge s.ignoredTypes, m.sites⟩

theorem Simplifier.before_walk (s : Simplifier) (m : Module) (knowledge : Knowledge) :
    (s.walk m knowledge).before m.sites.length = s.analyzeModule m knowledge := by
  rw [Walk.before, Walk.progress, walk, List.take_length]
  rfl

theorem Simplifier.walk_sound {text : String} {m : Module} {c : Config} {s : Simplifier}
    (hm : Module.parse text = .ok m) (hs : Simplifier.ofConfig c = .ok s) (knowledge : Knowledge) :
    (s.walk m knowledge).Sound (SourceText.ofString text).HasPlace :=
  ⟨rules_subset hs, fun _ hsite => Module.site_nested hm hsite⟩

/-- The analysis of a module looks at each node of each value, in the order of the text, in the
scope and with the freedom that the way from the body of the value to the node gives it. What the
first enabled rule that reports finds there is in the result, unless a fix reported before changes
something in the node or conflicts with the fix of the finding. Nothing else is in the result: a
finding is reported for exactly one site, after all that was reported before, and findings are in
the order of their sites. -/
theorem analysis_reports_exactly {text : String} {m : Module} {c : Config} {s : Simplifier}
    (hm : Module.parse text = .ok m) (hs : Simplifier.ofConfig c = .ok s) (knowledge : Knowledge) :
    let w := s.walk m knowledge
    w.rules = (RuleCode.all.filter c.isEnabled).map Rule.ofCode ∧
      (w.sites.map Site.expr = m.values.flatMap fun v => v.body.nodes) ∧
      (∀ site, site ∈ w.sites ↔ ∃ v ∈ m.values, v.site.Within site) ∧
      (∀ i site f, w.sites[i]? = some site → w.findingAt site = some f →
        f ∈ s.analyzeModule m knowledge ∨ (∃ g ∈ w.before i, g.Rewrites site.expr.range) ∨
          ∃ g ∈ w.before i, g.ConflictsWith f) ∧
      (∀ i, w.before i <+: s.analyzeModule m knowledge) ∧
      (∀ i site f, w.Reports i site f →
        ∃ later, s.analyzeModule m knowledge = w.before i ++ f :: later) ∧
      (∀ f ∈ s.analyzeModule m knowledge, ∃! i, ∃ site, w.Reports i site f) ∧
      (s.analyzeModule m knowledge).Pairwise fun f g =>
        ∀ i j site site', w.Reports i site f → w.Reports j site' g → i < j := by
  intro w
  have hw : w.Sound (SourceText.ofString text).HasPlace := Simplifier.walk_sound hm hs knowledge
  have hall : w.before m.sites.length = s.analyzeModule m knowledge := s.before_walk m knowledge
  have hbefore : ∀ i, w.before i <+: s.analyzeModule m knowledge := by
    intro i
    rw [← hall]
    exact Walk.before_mono_all i
  have hreported : ∀ i site f, w.Reports i site f →
      ∃ later, s.analyzeModule m knowledge = w.before i ++ f :: later :=
    fun i site f hf => hall ▸ hw.exists_later hf
  refine ⟨Simplifier.rules_eq hs, m.map_expr_sites, fun _ => Module.mem_sites_iff, ?_, hbefore,
    hreported, ?_, ?_⟩
  · intro i site f hsite hf
    by_cases hkept : ∃ g ∈ w.before i, g.Rewrites site.expr.range
    · exact .inr (.inl hkept)
    · by_cases hapart : ∃ g ∈ w.before i, g.ConflictsWith f
      · exact .inr (.inr hapart)
      · push Not at hkept hapart
        rcases hreported i site f ⟨hsite, hf, hkept, hapart⟩ with ⟨later, hlater⟩
        left
        rw [hlater]
        exact List.mem_append_right _ List.mem_cons_self
  · intro f hf
    rw [← hall] at hf
    rcases hw.exists_reports hf with ⟨i, -, site, hi⟩
    refine ⟨i, ⟨site, hi⟩, ?_⟩
    intro j ⟨site', hj⟩
    exact hw.reports_unique hj hi
  · rw [← hall]
    exact hw.before_pairwise _

/-- In a double negation over two redundant operations all three are reported, each for its own
node. -/
theorem analysis_reports_exactly_nested_negation :
    ∃ m s, Module.parse "x y =\n    not (not (y && True)) || (y || y)\n" = .ok m ∧
      Simplifier.ofConfig .default = .ok s ∧
      (s.analyzeModule m ProjectIndex.core.knowledge).length = 3 ∧
      ∀ f ∈ s.analyzeModule m ProjectIndex.core.knowledge,
        ∃! i, ∃ site, (s.walk m ProjectIndex.core.knowledge).Reports i site f := by
  have hcount : passesByDefault "x y =\n    not (not (y && True)) || (y || y)\n"
      (fun m s => (s.analyzeModule m ProjectIndex.core.knowledge).length = 3) = true := by
    decide +kernel
  rcases exists_of_passesByDefault hcount with ⟨m, s, hm, hs, hlength⟩
  rcases analysis_reports_exactly hm hs ProjectIndex.core.knowledge with ⟨-, -, -, -, -, -, hone, -⟩
  exact ⟨m, s, hm, hs, of_decide_eq_true hlength, hone⟩

end Terse
