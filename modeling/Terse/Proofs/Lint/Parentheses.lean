import Terse.Proofs.Lint.TwinSites
import Terse.Proofs.Lint.Walk
import Terse.Proofs.Rule.Agreement
import Terse.Proofs.Rule.RuleMirrors
import Terse.Proofs.Tree.Decidable

/-!
# Findings and parentheses

Two modules that differ only in parentheses that group nothing are analyzed in lockstep: at each
site the same is found, and it is reported in both or in neither. A finding is withheld when its fix
conflicts with an earlier one, and a fix that joins lists in parentheses writes them anew, so that
nothing more is reported inside them; only where parentheses decide one of the two, the walks take a
site differently. All other sites are reported alike.
-/

namespace Terse

/-! ## What fixes rewrite -/

section

variable {place place' : Location → Prop} {whole whole' : Range} {f f' : Finding}

/-- A fix rewrites a node when one of its edits hits the node. -/
theorem Finding.Fits.rewrites_iff (h : f.Fits place whole) {r : Range} (hr : r.start < r.stop) :
    f.Rewrites r ↔ Hit f.edits r := by
  have hoverlaps : ∀ edit ∈ f.edits, edit.range.overlaps r = true ↔
      edit.range.start < r.stop ∧ r.start < edit.range.stop := by
    intro edit hedit
    have hle := (h.fixFits.fits edit hedit).le
    simp only [Range.overlaps, Range.isEmpty, decide_eq_true_eq, not_le.mpr hr, if_false]
    split
    · rename_i hempty
      have heq : edit.range.start = edit.range.stop := by order
      rw [Bool.and_eq_true, decide_eq_true_eq, decide_eq_true_eq, heq, and_comm]
    · rw [Bool.and_eq_true, decide_eq_true_eq, decide_eq_true_eq]
  constructor
  · rintro ⟨r', hr', hoverlap⟩
    rcases List.mem_map.mp hr' with ⟨edit, hedit, rfl⟩
    exact ⟨edit, hedit, (hoverlaps edit hedit).mp hoverlap⟩
  · rintro ⟨edit, hedit, hhit⟩
    exact ⟨edit.range, List.mem_map_of_mem hedit, (hoverlaps edit hedit).mpr hhit⟩

/-- A fix that fits into a node rewrites nothing behind it. -/
theorem Finding.Fits.not_rewrites_behind (h : f.Fits place whole) {r : Range}
    (hr : r.start < r.stop) (hle : whole.stop ≤ r.start) : ¬ f.Rewrites r := by
  rw [h.rewrites_iff hr]
  apply not_hit_of_apart
  intro edit hedit
  exact .inl ((h.fixFits.fits edit hedit).le_stop.trans hle)

/-- Findings that mirror each other rewrite the same of two pairs of nodes, the later of which
stands below or behind the earlier one. -/
theorem Finding.Mirrors.rewrites_iff {e e' x x' : Expr} (h : f.Mirrors True e e' f')
    (hf : f.Fits place e.range) (hf' : f'.Fits place' e'.range) (hx : x.Nested place)
    (hx' : x'.Nested place') (hprecedes : Expr.PairPrecedes (e, e') (x, x')) :
    f.Rewrites x.range ↔ f'.Rewrites x'.range := by
  rcases hprecedes with hpair | ⟨hle, hle'⟩
  · rw [hf.rewrites_iff hx.proper.lt, hf'.rewrites_iff hx'.proper.lt]
    exact h.hits trivial x x' hpair
  · exact iff_of_false (hf.not_rewrites_behind hx.proper.lt hle)
      (hf'.not_rewrites_behind hx'.proper.lt hle')

end

/-! ## Walks that leave out parentheses -/

/-- No rule looks at parentheses. -/
theorem Rule.firstFinding_of_not_bare {rules : List Rule} (hrules : rules ⊆ all) (ctx : Context)
    {e : Expr} (h : e.isBare = false) : firstFinding rules ctx e = none := by
  have hform : e.form = .paren := by
    cases e with
    | paren => rfl
    | _ => cases h
  rw [firstFinding, List.findSome?_eq_none_iff]
  intro rule hrule
  rcases List.mem_map.mp (hrules hrule) with ⟨code, -, rfl⟩
  rw [hform, if_neg]
  cases code <;> decide

namespace Walk

/-- The walk over the sites that are no parentheses. -/
def bare (w : Walk) : Walk := { w with sites := w.sites.filter fun x => x.expr.isBare }

variable {w : Walk} {place : Location → Prop}

theorem Sound.bare (h : w.Sound place) : w.bare.Sound place :=
  ⟨h.rules, fun site hsite => h.sites site (List.mem_filter.mp hsite).1⟩

theorem foldl_visit_bare {rules : List Rule} (hrules : rules ⊆ Rule.all) (m : ModuleContext)
    (sites : List Site) (p : Progress) :
    (sites.filter fun x => x.expr.isBare).foldl (Progress.visit rules m) p =
      sites.foldl (Progress.visit rules m) p := by
  induction sites generalizing p with
  | nil => rfl
  | cons site sites ih =>
    by_cases hbare : site.expr.isBare = true
    · rw [List.filter_cons, if_pos hbare, List.foldl_cons, List.foldl_cons, ih]
    · -- a visit of parentheses changes nothing
      have hsame : p.visit rules m site = p := by
        rw [Progress.visit, Rule.firstFinding_of_not_bare hrules _ (by simpa using hbare)]
        split <;> rfl
      rw [List.filter_cons, if_neg hbare, List.foldl_cons, hsame, ih]

/-- Parentheses do not count for what is reported. -/
theorem Sound.before_bare (h : w.Sound place) :
    w.bare.before w.bare.sites.length = w.before w.sites.length := by
  rw [before, before, progress, progress, List.take_length, List.take_length,
    ← foldl_visit_bare h.rules w.context w.sites]
  rfl

end Walk

/-! ## Two walks in lockstep -/

namespace Walk

/-- What is found at the site of a number is not reported, although no fix that was reported before
changes something in the node: its own fix would conflict with an earlier one. -/
def Withholds (w : Walk) (i : Nat) : Prop :=
  ∃ site ∈ w.sites[i]?, ∃ f ∈ w.findingAt site,
    (∀ g ∈ w.before i, ¬ g.Rewrites site.expr.range) ∧ ∃ g ∈ w.before i, g.ConflictsWith f

/-- Of the runs of lists that fixes at two sites make one list of, the same are joined element by
element. -/
def MergesAlike (w : Walk) (site site' : Site) : Prop :=
  Rule.Lists.MergedAlike ⟨w.context, site.scope, site.isFree⟩ site.expr site'.expr

/-- Two walks take the site of a number alike. They withhold what is found there both or neither;
and where something is found, a fix that was reported before, but joins other runs of lists element
by element in each walk, changes something in the node in both or in neither. -/
structure TakesAlike (w w' : Walk) (i : Nat) : Prop where
  withheld : w.Withholds i ↔ w'.Withholds i
  merged : ∀ j < i, ∀ site f site' f', w.Reports j site f → w'.Reports j site' f' →
    ¬ w.MergesAlike site site' → ∀ later ∈ w.sites[i]?, ∀ later' ∈ w'.sites[i]?,
      (w.findingAt later).isSome → (f.Rewrites later.expr.range ↔ f'.Rewrites later'.expr.range)

/-- Two walks over sites that correspond to each other: what is found at a site mirrors what is
found at the corresponding one, and the pairs of sites are in order. -/
structure Lockstep (place place' : Location → Prop) (w w' : Walk) : Prop where
  sound : w.Sound place
  sound' : w'.Sound place'
  mirrored : List.Forall₂ (fun site site' => Mirrored (w.MergesAlike site site') site.expr
    site'.expr (w.findingAt site) (w'.findingAt site')) w.sites w'.sites
  precedes : (w.sites.zip w'.sites).Pairwise fun p q =>
    Expr.PairPrecedes (p.1.expr, p.2.expr) (q.1.expr, q.2.expr)

variable {place place' : Location → Prop} {w w' : Walk} {f f' : Finding} {i k n : Nat}

/-- What is found at a site is reported, unless an earlier fix changes something in the node, or it
is withheld. -/
theorem exists_reports_iff {site : Site} (hsite : w.sites[i]? = some site) :
    (∃ f, w.Reports i site f) ↔ (w.findingAt site).isSome ∧
      (∀ g ∈ w.before i, ¬ g.Rewrites site.expr.range) ∧ ¬ w.Withholds i := by
  constructor
  · rintro ⟨f, hf⟩
    refine ⟨Option.isSome_iff_exists.mpr ⟨f, hf.found⟩, hf.kept, ?_⟩
    rintro ⟨site', hsite', f', hf', -, g, hg, hconflicts⟩
    obtain rfl : site = site' := Option.some.inj (hsite.symm.trans hsite')
    obtain rfl : f = f' := Option.some.inj (hf.found.symm.trans hf')
    exact hf.apart g hg hconflicts
  · rintro ⟨hfound, hkept, hwithheld⟩
    obtain ⟨f, hf⟩ := Option.isSome_iff_exists.mp hfound
    refine ⟨f, hsite, hf, hkept, fun g hg hconflicts => hwithheld ?_⟩
    exact ⟨site, hsite, f, hf, hkept, g, hg, hconflicts⟩

/-- Walks take all sites alike if they withhold the same, and join the same lists at all pairs of
sites. -/
theorem takesAlike_of_all (hwithheld : ∀ i < n, (w.Withholds i ↔ w'.Withholds i))
    (hmerges : ∀ p ∈ w.sites.zip w'.sites, w.MergesAlike p.1 p.2) : ∀ i < n, w.TakesAlike w' i := by
  intro i hi
  refine ⟨hwithheld i hi, fun j _ site f site' f' hf hf' hnot => ?_⟩
  exact absurd (hmerges (site, site') (List.mem_of_getElem?
    (List.getElem?_zip_eq_some.mpr ⟨hf.site_eq, hf'.site_eq⟩))) hnot

namespace Lockstep

variable (h : Lockstep place place' w w')
include h

/-- What is found at sites of one number mirrors each other. -/
theorem mirrored_at {site site' : Site} (hsite : w.sites[i]? = some site)
    (hsite' : w'.sites[i]? = some site') :
    Mirrored (w.MergesAlike site site') site.expr site'.expr (w.findingAt site)
      (w'.findingAt site') := by
  have hrel := rel_getElem? h.mirrored i
  rw [hsite, hsite'] at hrel
  cases hrel with
  | some hmirrored => exact hmirrored

/-- Each site has a partner. -/
theorem exists_site_iff :
    (∃ site, w.sites[i]? = some site) ↔ ∃ site', w'.sites[i]? = some site' := by
  simp only [← Option.isSome_iff_exists, isSome_getElem?, h.mirrored.length_eq]

/-- At sites of one number, the same is found. -/
theorem verdict_at {site site' : Site} (hsite : w.sites[i]? = some site)
    (hsite' : w'.sites[i]? = some site') :
    (w.findingAt site).map Finding.verdict = (w'.findingAt site').map Finding.verdict :=
  (h.mirrored_at hsite hsite').verdict

/-- Something is found at both sites of a number, or at neither. -/
theorem isSome_findingAt_iff {site site' : Site} (hsite : w.sites[i]? = some site)
    (hsite' : w'.sites[i]? = some site') :
    (w.findingAt site).isSome ↔ (w'.findingAt site').isSome := by
  have hverdict := congrArg Option.isSome (h.verdict_at hsite hsite')
  rw [Option.isSome_map, Option.isSome_map] at hverdict
  rw [hverdict]

/-- Reports for corresponding sites say the same. -/
theorem verdict_eq {site site' : Site} (hf : w.Reports i site f) (hf' : w'.Reports i site' f') :
    f.verdict = f'.verdict := by
  have hverdict := h.verdict_at hf.site_eq hf'.site_eq
  rw [hf.found, hf'.found] at hverdict
  exact Option.some.inj hverdict

section

variable {site site' later later' : Site} (hsite : w.sites[i]? = some site)
  (hsite' : w'.sites[i]? = some site') (hlater : w.sites[k]? = some later)
  (hlater' : w'.sites[k]? = some later') (hik : i < k)
include hsite hsite' hlater hlater' hik

/-- The pair of the later sites stands below the pair of the earlier ones, or behind it. -/
theorem precedes_at : Expr.PairPrecedes (site.expr, site'.expr) (later.expr, later'.expr) := by
  have hpair : (w.sites.zip w'.sites)[i]? = some (site, site') :=
    List.getElem?_zip_eq_some.mpr ⟨hsite, hsite'⟩
  have hnext : (w.sites.zip w'.sites)[k]? = some (later, later') :=
    List.getElem?_zip_eq_some.mpr ⟨hlater, hlater'⟩
  rcases List.getElem?_eq_some_iff.mp hpair with ⟨hi, hget⟩
  rcases List.getElem?_eq_some_iff.mp hnext with ⟨hk, hget'⟩
  have hprecedes := List.pairwise_iff_getElem.mp h.precedes i k hi hk hik
  rwa [hget, hget'] at hprecedes

/-- A fix only changes something in nodes that stand in its own node. -/
theorem mem_nodes_of_rewrites
    (hrewrites : (∃ f, w.Reports i site f ∧ f.Rewrites later.expr.range) ∨
      ∃ f', w'.Reports i site' f' ∧ f'.Rewrites later'.expr.range) :
    later.expr ∈ site.expr.nodes := by
  have hproper := (h.sound.sites later (List.mem_of_getElem? hlater)).proper.lt
  have hproper' := (h.sound'.sites later' (List.mem_of_getElem? hlater')).proper.lt
  rcases h.precedes_at hsite hsite' hlater hlater' hik with hpair | ⟨hle, hle'⟩
  · exact (Expr.mem_nodes_of_mem_pairs hpair).1
  · rcases hrewrites with ⟨f, hf, hrewrites⟩ | ⟨f', hf', hrewrites⟩
    · have hfits := Rule.firstFinding_fits h.sound.rules _
        (h.sound.sites site (List.mem_of_getElem? hsite)) f hf.found
      exact absurd hrewrites (hfits.not_rewrites_behind hproper hle)
    · have hfits := Rule.firstFinding_fits h.sound'.rules _
        (h.sound'.sites site' (List.mem_of_getElem? hsite')) f' hf'.found
      exact absurd hrewrites (hfits.not_rewrites_behind hproper' hle')

/-- What is reported for corresponding sites changes something in the same later nodes, if it joins
the same lists. -/
theorem rewrites_iff (hf : w.Reports i site f) (hf' : w'.Reports i site' f')
    (hmerges : w.MergesAlike site site') :
    f.Rewrites later.expr.range ↔ f'.Rewrites later'.expr.range := by
  have hmirrored := h.mirrored_at hsite hsite'
  rw [hf.found, hf'.found] at hmirrored
  cases hmirrored with
  | some hmirrors =>
    have hnested := h.sound.sites site (List.mem_of_getElem? hsite)
    have hnested' := h.sound'.sites site' (List.mem_of_getElem? hsite')
    exact Finding.Mirrors.rewrites_iff ⟨hmirrors.verdict, fun _ => hmirrors.hits hmerges⟩
      (Rule.firstFinding_fits h.sound.rules _ hnested f hf.found)
      (Rule.firstFinding_fits h.sound'.rules _ hnested' f' hf'.found)
      (h.sound.sites later (List.mem_of_getElem? hlater))
      (h.sound'.sites later' (List.mem_of_getElem? hlater'))
      (h.precedes_at hsite hsite' hlater hlater' hik)

end

/-- At a site, walks in lockstep report the same or nothing, if they take the site and all sites
around it alike. -/
theorem exists_reports_iff {site site' : Site} (hsite : w.sites[k]? = some site)
    (hsite' : w'.sites[k]? = some site')
    (halike : ∀ i ≤ k, ∀ around ∈ w.sites[i]?, site.expr ∈ around.expr.nodes →
      w.TakesAlike w' i) :
    (∃ f, w.Reports k site f) ↔ ∃ f', w'.Reports k site' f' := by
  -- only fixes of nodes around the site change something in it, and those are the same
  induction k using Nat.strong_induction_on generalizing site site' with
  | _ k ih =>
    have hself := halike k le_rfl site hsite site.expr.mem_nodes_self
    have haround : ∀ i < k, ∀ around around', w.sites[i]? = some around →
        w'.sites[i]? = some around' → site.expr ∈ around.expr.nodes →
          ((∃ f, w.Reports i around f) ↔ ∃ f', w'.Reports i around' f') := by
      intro i hi around around' haround haround' hin
      refine ih i hi haround haround' fun j hj outer houter hin' => ?_
      exact halike j (hj.trans hi.le) outer houter (Expr.mem_nodes_trans hin hin')
    rw [Walk.exists_reports_iff hsite, Walk.exists_reports_iff hsite', hself.withheld,
      h.isSome_findingAt_iff hsite hsite', and_congr_right_iff, and_congr_left_iff]
    intro hfound _
    rw [← h.isSome_findingAt_iff hsite hsite'] at hfound
    have hsame : ∀ i < k, ∀ around f around' f', w.Reports i around f →
        w'.Reports i around' f' → (f.Rewrites site.expr.range ↔ f'.Rewrites site'.expr.range) := by
      intro i hi around f around' f' hf hf'
      by_cases hmerges : w.MergesAlike around around'
      · exact h.rewrites_iff hf.site_eq hf'.site_eq hsite hsite' hi hf hf' hmerges
      · exact hself.merged i hi around f around' f' hf hf' hmerges site hsite site' hsite' hfound
    constructor
    · intro hkept g' hg' hrewrites
      obtain ⟨i, hi, around', hf'⟩ := h.sound'.exists_reports hg'
      obtain ⟨around, hsiteAround⟩ := h.exists_site_iff.mpr ⟨around', hf'.site_eq⟩
      have hin := h.mem_nodes_of_rewrites hsiteAround hf'.site_eq hsite hsite' hi
        (.inr ⟨g', hf', hrewrites⟩)
      obtain ⟨g, hf⟩ := (haround i hi around around' hsiteAround hf'.site_eq hin).mpr ⟨g', hf'⟩
      have hsame := hsame i hi around g around' g' hf hf'
      exact hkept g (h.sound.mem_before hf hi) (hsame.mpr hrewrites)
    · intro hkept g hg hrewrites
      obtain ⟨i, hi, around, hf⟩ := h.sound.exists_reports hg
      obtain ⟨around', hsiteAround⟩ := h.exists_site_iff.mp ⟨around, hf.site_eq⟩
      have hin := h.mem_nodes_of_rewrites hf.site_eq hsiteAround hsite hsite' hi
        (.inl ⟨g, hf, hrewrites⟩)
      obtain ⟨g', hf'⟩ := (haround i hi around around' hf.site_eq hsiteAround hin).mp ⟨g, hf⟩
      have hsame := hsame i hi around g around' g' hf hf'
      exact hkept g' (h.sound'.mem_before hf' hi) (hsame.mp hrewrites)

/-- As long as they take the sites alike, walks in lockstep say the same. -/
theorem verdicts_before (halike : ∀ i < n, w.TakesAlike w' i) :
    (w.before n).map Finding.verdict = (w'.before n).map Finding.verdict := by
  induction n with
  | zero => rfl
  | succ n ih =>
    have hbefore := ih fun i hi => halike i (Nat.lt_succ_of_lt hi)
    cases hsite : w.sites[n]? with
    | none =>
      have hsite' : w'.sites[n]? = none := by
        rw [List.getElem?_eq_none_iff] at hsite ⊢
        rwa [← h.mirrored.length_eq]
      rw [before_of_none hsite, before_of_none hsite', hbefore]
    | some site =>
      obtain ⟨site', hsite'⟩ := h.exists_site_iff.mp ⟨site, hsite⟩
      have hreports := h.exists_reports_iff hsite hsite' fun i hi _ _ _ =>
        halike i (Nat.lt_succ_of_le hi)
      rcases h.sound.step hsite with ⟨f, hf, hnew⟩ | ⟨hsame, hnone⟩
      · obtain ⟨f', hf'⟩ := hreports.mp ⟨f, hf⟩
        rw [hnew, h.sound'.before_succ hf', List.map_append, List.map_append, hbefore,
          List.map_singleton, List.map_singleton, h.verdict_eq hf hf']
      · rcases h.sound'.step hsite' with ⟨f', hf', -⟩ | ⟨hsame', -⟩
        · obtain ⟨f, hf⟩ := hreports.mpr ⟨f', hf'⟩
          exact absurd hf (hnone f)
        · rw [hsame, hsame', hbefore]

/-- At corresponding sites, the same is found. -/
theorem verdicts_found : List.Forall₂ (fun site site' =>
    (w.findingAt site).map Finding.verdict = (w'.findingAt site').map Finding.verdict)
    w.sites w'.sites :=
  h.mirrored.imp fun _ _ hmirrored => hmirrored.verdict

/-- What is reported first is the same. -/
theorem verdict_head : (w.before w.sites.length).head?.map Finding.verdict =
    (w'.before w'.sites.length).head?.map Finding.verdict := by
  have hfirst : ∀ {place : Location → Prop} {w : Walk}, w.Sound place →
      (w.before w.sites.length).head? = w.sites.findSome? w.findingAt := by
    intro place w hsound
    rw [Walk.before, progress, List.take_length]
    exact Progress.head?_findings hsound.rules w.context hsound.sites
  have hfound := h.verdicts_found
  rw [hfirst h.sound, hfirst h.sound']
  -- both walks pass the same sites over until the first finding, and that one is a twin's
  generalize w.sites = sites, w'.sites = sites' at hfound ⊢
  induction hfound with
  | nil => rfl
  | @cons site site' _ _ hsame _ ih =>
    rw [List.findSome?_cons, List.findSome?_cons]
    generalize w.findingAt site = f, w'.findingAt site' = f' at hsame ⊢
    cases f with
    | none =>
      rw [Option.map_none, eq_comm, Option.map_eq_none_iff] at hsame
      rw [hsame]
      exact ih
    | some f =>
      rw [Option.map_some, eq_comm, Option.map_eq_some_iff] at hsame
      rcases hsame with ⟨f', rfl, hverdict⟩
      exact congrArg some hverdict.symm

end Lockstep

end Walk

/-! ## Modules -/

section

variable {m m' : Module} (h : m.Twin m') {text text' : String} (hm : Module.parse text = .ok m)
  (hm' : Module.parse text' = .ok m') {c : Config} {s : Simplifier}
  (hs : Simplifier.ofConfig c = .ok s) (knowledge : Knowledge)
include h hm hm' hs

/-- The analyses of twins are in lockstep. -/
theorem Module.Twin.lockstep : Walk.Lockstep (SourceText.ofString text).HasPlace
    (SourceText.ofString text').HasPlace (s.walk m knowledge).bare (s.walk m' knowledge).bare := by
  have hsound := (Simplifier.walk_sound hm hs knowledge).bare
  have hsound' := (Simplifier.walk_sound hm' hs knowledge).bare
  refine ⟨hsound, hsound', ?_, h.precedes hm hm'⟩
  have hsites := h.bareSites
  change List.Forall₂ _ m.bareSites m'.bareSites
  rw [List.forall₂_iff_zip] at hsites ⊢
  refine ⟨hsites.1, fun {site site'} hmem => ?_⟩
  rcases List.of_mem_zip hmem with ⟨hin, hin'⟩
  rcases hsites.2 hmem with ⟨hscope, htwin⟩
  have htwins : site.expr.Twins (SourceText.ofString text).HasPlace
      (SourceText.ofString text').HasPlace site'.expr :=
    ⟨htwin, hsound.sites site hin, hsound'.sites site' hin', (List.mem_filter.mp hin).2,
      (List.mem_filter.mp hin').2⟩
  -- the contexts of twins agree for every rule, so either module may stand in for the other
  have hmirrored := @Rule.firstFinding_mirrors _ _ _ _
    ⟨ModuleContext.ofModule m knowledge s.ignoredTypes, site.scope, site.isFree⟩ m'.source
    site'.isFree htwins (RuleCode.all.filter c.isEnabled)
  rw [← Simplifier.rules_eq hs, Rule.firstFinding_agrees
    (h.agrees knowledge s.ignoredTypes site.scope site.isFree site'.isFree)
    (Simplifier.rules_subset hs)] at hmirrored
  have hfound : (s.walk m' knowledge).bare.findingAt site' = Rule.firstFinding s.rules
      ⟨ModuleContext.ofModule m' knowledge s.ignoredTypes, site.scope, site'.isFree⟩
      site'.expr := by
    rw [hscope]
    rfl
  rw [hfound]
  exact hmirrored

end

/-- Two modules that are the same apart from places and from parentheses that group nothing are
analyzed alike, whatever the configuration. Nothing is reported for parentheses themselves. All
other sites correspond one by one, in the same scopes, and the same is found at each of them. What
is reported first is the same, so one module is clean when the other one is. At each site the same
is reported, or nothing, if the walks take the site and those around it alike; and all that is
reported before a site is the same, in the same order, if they take all sites before it alike. -/
theorem parentheses_change_no_finding {m m' : Module} (h : m.Twin m') {text text' : String}
    (hm : Module.parse text = .ok m) (hm' : Module.parse text' = .ok m') {c : Config}
    {s : Simplifier} (hs : Simplifier.ofConfig c = .ok s) (knowledge : Knowledge) :
    let w := (s.walk m knowledge).bare
    let w' := (s.walk m' knowledge).bare
    w.before w.sites.length = s.analyzeModule m knowledge ∧
      w'.before w'.sites.length = s.analyzeModule m' knowledge ∧
      List.Forall₂ (fun site site' => site.Twin site' ∧
        (w.findingAt site).map Finding.verdict = (w'.findingAt site').map Finding.verdict)
        w.sites w'.sites ∧
      (s.analyzeModule m knowledge).head?.map Finding.verdict =
        (s.analyzeModule m' knowledge).head?.map Finding.verdict ∧
      (∀ i site site', w.sites[i]? = some site → w'.sites[i]? = some site' →
        (∀ j ≤ i, ∀ around ∈ w.sites[j]?, site.expr ∈ around.expr.nodes → w.TakesAlike w' j) →
        ∀ verdict, (∃ f, w.Reports i site f ∧ f.verdict = verdict) ↔
          ∃ f', w'.Reports i site' f' ∧ f'.verdict = verdict) ∧
      (∀ n, (∀ i < n, w.TakesAlike w' i) →
        (w.before n).map Finding.verdict = (w'.before n).map Finding.verdict) ∧
      ((∀ i < w.sites.length, w.TakesAlike w' i) →
        (s.analyzeModule m knowledge).map Finding.verdict =
          (s.analyzeModule m' knowledge).map Finding.verdict) := by
  intro w w'
  have hlockstep : Walk.Lockstep _ _ w w' := h.lockstep hm hm' hs knowledge
  have hall : w.before w.sites.length = s.analyzeModule m knowledge :=
    (Simplifier.walk_sound hm hs knowledge).before_bare.trans (s.before_walk m knowledge)
  have hall' : w'.before w'.sites.length = s.analyzeModule m' knowledge :=
    (Simplifier.walk_sound hm' hs knowledge).before_bare.trans (s.before_walk m' knowledge)
  refine ⟨hall, hall', ?_, ?_, ?_, fun n hn => hlockstep.verdicts_before hn, fun hn => ?_⟩
  · have hsites := h.bareSites
    have hfound := hlockstep.verdicts_found
    rw [List.forall₂_iff_zip] at hsites hfound ⊢
    exact ⟨hsites.1, fun hmem => ⟨hsites.2 hmem, hfound.2 hmem⟩⟩
  · rw [← hall, ← hall']
    exact hlockstep.verdict_head
  · intro i site site' hsite hsite' halike verdict
    have hreports := hlockstep.exists_reports_iff hsite hsite' halike
    constructor
    · rintro ⟨f, hf, rfl⟩
      obtain ⟨f', hf'⟩ := hreports.mp ⟨f, hf⟩
      exact ⟨f', hf', (hlockstep.verdict_eq hf hf').symm⟩
    · rintro ⟨f', hf', rfl⟩
      obtain ⟨f, hf⟩ := hreports.mpr ⟨f', hf'⟩
      exact ⟨f, hf, hlockstep.verdict_eq hf hf'⟩
  · have hverdicts := hlockstep.verdicts_before hn
    rwa [hall, hlockstep.mirrored.length_eq, hall'] at hverdicts

/-! ## Given texts -/

/-- What twins have in common, of the module that a text is read as. -/
def commonOf (text : String) : Option (Module × List (List Bool)) :=
  (Module.parse text).toOption.map fun m => (m.erase, m.values.map (·.body.groups))

theorem Module.twin_of_commonOf {text text' : String} {m m' : Module}
    (h : commonOf text = commonOf text') (hm : Module.parse text = .ok m)
    (hm' : Module.parse text' = .ok m') : m.Twin m' := by
  rw [commonOf, commonOf, hm, hm'] at h
  have heq := Option.some.inj h
  exact ⟨congrArg Prod.fst heq, congrArg Prod.snd heq⟩

instance (w : Walk) (site site' : Site) : Decidable (w.MergesAlike site site') :=
  inferInstanceAs (Decidable (Rule.Lists.plainRuns _ = Rule.Lists.plainRuns _))

/-- A test for what a walk withholds, on what the analysis keeps track of. -/
def Walk.isWithheld (w : Walk) (i : Nat) : Bool :=
  w.sites[i]?.any fun site => (w.findingAt site).any fun f =>
    !(w.progress i).isConsumed site.expr.range && f.editRanges.any (w.progress i).isConsumed

theorem Walk.Sound.isWithheld_iff {place : Location → Prop} {w : Walk} (h : w.Sound place)
    (i : Nat) : w.isWithheld i = true ↔ w.Withholds i := by
  rw [Walk.isWithheld, Option.any_eq_true]
  refine exists_congr fun site => and_congr_right fun hsite => ?_
  have hnested := h.sites site (List.mem_of_getElem? hsite)
  rw [Option.any_eq_true]
  refine exists_congr fun f => and_congr_right fun _ => ?_
  rw [Bool.and_eq_true, Bool.not_eq_true', ← Bool.not_eq_true,
    (h.progress_sound i).isConsumed_node_iff hnested, (h.progress_sound i).any_isConsumed_iff,
    not_exists]
  simp only [not_and, Walk.before]

/-- Two texts can be read and analyzed under the default configuration, and pass a test together. -/
def passTogether (source source' : String) (test : Module → Module → Simplifier → Bool) : Bool :=
  passesByDefault source fun m s => passesByDefault source' fun m' _ => test m m' s

theorem exists_of_passTogether {source source' : String}
    {test : Module → Module → Simplifier → Bool} (h : passTogether source source' test = true) :
    ∃ m m' s, Module.parse source = .ok m ∧ Module.parse source' = .ok m' ∧
      Simplifier.ofConfig .default = .ok s ∧ test m m' s = true := by
  rcases exists_of_passesByDefault h with ⟨m, s, hm, hs, h'⟩
  rcases exists_of_passesByDefault h' with ⟨m', s', hm', -, htest⟩
  exact ⟨m, m', s, hm, hm', hs, htest⟩

/-- A chain in which one of two findings is withheld, with parentheses around some of its terms. -/
theorem parentheses_change_no_finding_chain :
    ∃ m m' s, Module.parse "x y = y y |> identity |> identity |> y\n" = .ok m ∧
      Module.parse "x y = (y) y |> (identity) |> identity |> y\n" = .ok m' ∧
      Simplifier.ofConfig .default = .ok s ∧ m.Twin m' ∧
      (∃ i, (s.walk m ProjectIndex.core.knowledge).bare.Withholds i) ∧
      (s.analyzeModule m ProjectIndex.core.knowledge).length = 1 ∧
      (s.analyzeModule m ProjectIndex.core.knowledge).map Finding.verdict =
        (s.analyzeModule m' ProjectIndex.core.knowledge).map Finding.verdict := by
  have hpass : passTogether "x y = y y |> identity |> identity |> y\n"
      "x y = (y) y |> (identity) |> identity |> y\n" (fun m m' s =>
        let w := (s.walk m ProjectIndex.core.knowledge).bare
        let w' := (s.walk m' ProjectIndex.core.knowledge).bare
        decide ((w.before w.sites.length).length = 1 ∧
          (∃ i < w.sites.length, w.isWithheld i = true) ∧
          (∀ i < w.sites.length, w.isWithheld i = w'.isWithheld i) ∧
          ∀ p ∈ w.sites.zip w'.sites, w.MergesAlike p.1 p.2)) = true := by
    decide +kernel
  have hcommon : commonOf "x y = y y |> identity |> identity |> y\n" =
      commonOf "x y = (y) y |> (identity) |> identity |> y\n" := by
    decide +kernel
  rcases exists_of_passTogether hpass with ⟨m, m', s, hm, hm', hs, htest⟩
  have hfacts := of_decide_eq_true htest
  rcases hfacts.2.1 with ⟨i, -, hwithheld⟩
  have hsound := (Simplifier.walk_sound hm hs ProjectIndex.core.knowledge).bare
  have hsound' := (Simplifier.walk_sound hm' hs ProjectIndex.core.knowledge).bare
  have htwin := Module.twin_of_commonOf hcommon hm hm'
  rcases parentheses_change_no_finding htwin hm hm' hs ProjectIndex.core.knowledge with
    ⟨hall, -, -, -, -, -, hsame⟩
  refine ⟨m, m', s, hm, hm', hs, htwin, ⟨i, (hsound.isWithheld_iff i).mp hwithheld⟩, ?_, ?_⟩
  · rw [← hall, hfacts.1]
  · refine hsame (Walk.takesAlike_of_all (fun i hi => ?_) hfacts.2.2.2)
    rw [← hsound.isWithheld_iff, ← hsound'.isWithheld_iff, hfacts.2.2.1 i hi]

/-- Two texts are read as modules that are the same apart from places and one pair of parentheses,
and the analyses say different things. -/
def TellsApart (text text' : String) : Prop :=
  ∃ m m' s, Module.parse text = .ok m ∧ Module.parse text' = .ok m' ∧
    Simplifier.ofConfig .default = .ok s ∧ m.erase = m'.erase ∧
    m'.sites.length = m.sites.length + 1 ∧
    (s.analyzeModule m ProjectIndex.core.knowledge).map Finding.verdict ≠
      (s.analyzeModule m' ProjectIndex.core.knowledge).map Finding.verdict

theorem tellsApart_of_passTogether {text text' : String}
    (hpass : passTogether text text' (fun m m' s =>
      decide (m'.sites.length = m.sites.length + 1 ∧
        (s.analyzeModule m ProjectIndex.core.knowledge).length ≠
          (s.analyzeModule m' ProjectIndex.core.knowledge).length)) = true)
    (herase : (Module.parse text).toOption.map Module.erase =
      (Module.parse text').toOption.map Module.erase) : TellsApart text text' := by
  rcases exists_of_passTogether hpass with ⟨m, m', s, hm, hm', hs, htest⟩
  rw [hm, hm'] at herase
  rcases of_decide_eq_true htest with ⟨hsites, hlength⟩
  refine ⟨m, m', s, hm, hm', hs, Option.some.inj herase, hsites, fun hsame => hlength ?_⟩
  simpa using congrArg List.length hsame

/-- One pair of parentheses changes what is reported: around a composition in a composition, around
an operator that is given both its operands, around a list that is joined to another one, and where
two fixes would insert at the same place. -/
theorem parentheses_change_reports :
    TellsApart "x y = not >> not >> y\n" "x y = not >> (not >> y)\n" ∧
      TellsApart "x y z = (+) y z\n" "x y z = ((+)) y z\n" ∧
      TellsApart "x y = [y] ++ [not (not y)]\n" "x y = [y] ++ ([not (not y)])\n" ∧
      TellsApart "x y = y y |> identity |> identity |> y\n"
        "x y = (y y |> identity) |> identity |> y\n" := by
  refine ⟨?_, ?_, ?_, ?_⟩
  · exact tellsApart_of_passTogether (by decide +kernel) (by decide +kernel)
  · exact tellsApart_of_passTogether (by decide +kernel) (by decide +kernel)
  · exact tellsApart_of_passTogether (by decide +kernel) (by decide +kernel)
  · exact tellsApart_of_passTogether (by decide +kernel) (by decide +kernel)

end Terse
