import Terse.Proofs.Lint.Analysis
import Terse.Proofs.Lint.Site
import Terse.Proofs.Tree.Binding
import Terse.Proofs.Tree.Order

/-!
# The scope of a node

The variables in scope at a node are those that the patterns around it bind: the parameters of the
value, then the parameters of each lambda and the pattern of each branch on the way down to the
node. A walk that keeps a single list of variables, adds to it where a pattern binds and cuts it
back behind, has just these variables at each node, and leaves every node with the list it came
with.
-/

namespace Terse

/-- A node that binds nothing hands its scope to all its parts. -/
theorem Expr.sites_of_unbound {scope : List String} {isFree : Bool} (e : Expr)
    (hlambda : ∀ r params body, e = .lambda r params body → False)
    (hcase : ∀ r scrutinee branches, e = .case r scrutinee branches → False) :
    e.sites scope isFree =
      ⟨e, scope, isFree⟩ :: e.children.flatMap fun c => c.sites scope e.childrenAreFree := by
  cases e with
  | lambda r params body => exact absurd rfl (hlambda r params body)
  | case r scrutinee branches => exact absurd rfl (hcase r scrutinee branches)
  | _ => simp [sites, children, childrenAreFree, sitesOfAll_eq, sitesOfSetters_eq,
      List.flatMap_map]

/-! ## Walking with one scope -/

/-- A walk under way: the variables in scope at present, and what is kept of the sites seen. -/
structure Walker (σ : Type) where
  scope : List String
  kept : σ

namespace Walker

variable {σ : Type}

/-- More variables come into scope. -/
def enter (w : Walker σ) (vars : List String) : Walker σ := { w with scope := w.scope ++ vars }

/-- All variables but the first ones go out of scope. -/
def leave (w : Walker σ) (depth : Nat) : Walker σ := { w with scope := w.scope.take depth }

/-- Look at a node in the present scope. -/
def look (see : σ → Site → σ) (w : Walker σ) (isFree : Bool) (e : Expr) : Walker σ :=
  { w with kept := see w.kept ⟨e, w.scope, isFree⟩ }

/-- Look at a node, and then at what is inside it. The body of a lambda and the bodies of branches
are entered with the variables that are bound for them, and left with the scope cut back. -/
def visit (see : σ → Site → σ) (w : Walker σ) (isFree : Bool) : Expr → Walker σ
  | e@(.lambda _ params body) =>
    let w := w.look see isFree e
    (visit see (w.enter (Pattern.boundVarsAll params)) true body).leave w.scope.length
  | e@(.case _ scrutinee branches) =>
    branches.attach.foldl (fun w b =>
      (visit see (w.enter b.1.pattern.boundVars) true b.1.body).leave w.scope.length)
      (visit see (w.look see isFree e) true scrutinee)
  | e => e.children.attach.foldl (fun w c => visit see w e.childrenAreFree c.1)
      (w.look see isFree e)
termination_by e => sizeOf e
decreasing_by
  all_goals apply Expr.sizeOf_lt_of_mem_children
  · exact List.mem_singleton.mpr rfl
  · exact List.mem_cons_of_mem _ (List.mem_map_of_mem b.2)
  · exact List.mem_cons_self
  · exact c.2

/-- Look at the body of a value, in the scope of its parameters. -/
def visitValue (see : σ → Site → σ) (w : Walker σ) (v : ValueDecl) : Walker σ :=
  visit see { w with scope := Pattern.boundVarsAll v.params } true v.body

/-- Look at all values of a module. -/
def run (see : σ → Site → σ) (start : σ) (m : Module) : Walker σ :=
  m.values.foldl (visitValue see) ⟨[], start⟩

/-- A walk over some nodes in a row leaves the scope as it was if the walk over each one does. -/
theorem foldl_eq {α : Type} {step : Walker σ → α → Walker σ} {see : σ → Site → σ} {xs : List α}
    (sites : α → List String → List Site)
    (h : ∀ x ∈ xs, ∀ w, step w x = ⟨w.scope, (sites x w.scope).foldl see w.kept⟩) (w : Walker σ) :
    xs.foldl step w = ⟨w.scope, (xs.flatMap fun x => sites x w.scope).foldl see w.kept⟩ := by
  induction xs generalizing w with
  | nil => rfl
  | cons x xs ih =>
    rw [List.forall_mem_cons] at h
    rw [List.foldl_cons, h.1, ih h.2, List.flatMap_cons, List.foldl_append]

/-- A walk looks at the sites of a node in order, and leaves the scope as it was. -/
theorem visit_eq (see : σ → Site → σ) (w : Walker σ) (isFree : Bool) (e : Expr) :
    w.visit see isFree e = ⟨w.scope, (e.sites w.scope isFree).foldl see w.kept⟩ := by
  fun_induction visit see w isFree e with
  | case1 w isFree r params body w' ih =>
    rw [ih, leave, enter, List.take_left, Expr.sites]
    rfl
  | case2 w isFree r scrutinee branches ihb ihs =>
    -- each branch gives the scope back as it was, so the fold over branches keeps it
    have hbranch : ∀ b ∈ branches, ∀ w : Walker σ,
        (visit see (w.enter b.pattern.boundVars) true b.body).leave w.scope.length =
          ⟨w.scope, (b.body.sites (w.scope ++ b.pattern.boundVars) true).foldl see w.kept⟩ := by
      intro b hb w
      rw [ihb w ⟨b, hb⟩, leave, enter, List.take_left]
    rw [List.foldl_attach (f := fun w (b : Branch) =>
        (visit see (w.enter b.pattern.boundVars) true b.body).leave w.scope.length), ihs,
      foldl_eq (fun b scope => b.body.sites (scope ++ b.pattern.boundVars) true) hbranch,
      Expr.sites, Expr.sitesOfBranches_eq, List.foldl_cons, List.foldl_append]
    rfl
  | case3 w isFree e hlambda hcase ih =>
    have hchild : ∀ c ∈ e.children, ∀ w : Walker σ, visit see w e.childrenAreFree c =
        ⟨w.scope, (c.sites w.scope e.childrenAreFree).foldl see w.kept⟩ := by
      intro c hc w
      exact ih w ⟨c, hc⟩
    rw [List.foldl_attach (f := fun w c => visit see w e.childrenAreFree c),
      foldl_eq (fun c scope => c.sites scope e.childrenAreFree) hchild,
      e.sites_of_unbound hlambda hcase, List.foldl_cons]
    rfl

/-- The walk over a module looks at its sites in order. -/
theorem kept_run (see : σ → Site → σ) (start : σ) (m : Module) :
    (run see start m).kept = m.sites.foldl see start := by
  have hvalues : ∀ (vs : List ValueDecl) (w : Walker σ),
      (vs.foldl (visitValue see) w).kept = (vs.flatMap ValueDecl.sites).foldl see w.kept := by
    intro vs
    induction vs with
    | nil => exact fun w => rfl
    | cons v vs ih =>
      intro w
      rw [List.foldl_cons, ih, visitValue, visit_eq, List.flatMap_cons, List.foldl_append]
      rfl
  exact hvalues m.values ⟨[], start⟩

end Walker

/-! ## Patterns around a node -/

namespace Site

/-- What patterns on the way to a site bind is what its scope has more. -/
theorem Within.exists_around {whole s : Site} (h : whole.Within s) :
    ∃ around, whole.expr.Around around s.expr ∧
      s.scope = whole.scope ++ around.flatMap Pattern.boundVars := by
  induction h with
  | self => exact ⟨[], .root, by simp⟩
  | @part s p _ hp ih =>
    rcases ih with ⟨around, haround, hscope⟩
    rcases s with ⟨e, scope, isFree⟩
    rcases List.mem_map.mp hp with ⟨⟨vars, c⟩, hc, rfl⟩
    dsimp only at haround hscope hc ⊢
    subst hscope
    -- a lambda and a case branch bind names around a part; every other part is seen in the
    -- scope of the whole
    cases e with
    | lambda r params body =>
      obtain ⟨rfl, rfl⟩ := Prod.mk.inj (List.mem_singleton.mp hc)
      refine ⟨_, haround.body, ?_⟩
      rw [List.flatMap_append, Pattern.boundVarsAll_eq, List.append_assoc]
    | case r scrutinee branches =>
      rcases List.mem_cons.mp hc with hc | hc
      · obtain ⟨rfl, rfl⟩ := Prod.mk.inj hc
        exact ⟨_, haround.scrutinee, List.append_nil _⟩
      · rcases List.mem_map.mp hc with ⟨b, hb, hc⟩
        obtain ⟨rfl, rfl⟩ := Prod.mk.inj hc
        refine ⟨_, haround.branch hb, ?_⟩
        rw [List.flatMap_append, List.flatMap_singleton, List.append_assoc]
    | _ =>
      rcases List.mem_map.mp hc with ⟨c', hc', hc⟩
      obtain ⟨rfl, rfl⟩ := Prod.mk.inj hc
      exact ⟨_, haround.part nofun nofun hc', List.append_nil _⟩

end Site

/-- Every node in an expression has a site there, with the scope that the patterns around it
make. -/
theorem Expr.Around.exists_site {root e : Expr} {around : List Pattern}
    (h : root.Around around e) (scope : List String) (isFree : Bool) :
    ∃ free, (⟨root, scope, isFree⟩ : Site).Within
      ⟨e, scope ++ around.flatMap Pattern.boundVars, free⟩ := by
  induction h with
  | root =>
    refine ⟨isFree, ?_⟩
    rw [List.flatMap_nil, List.append_nil]
    exact .self
  | body _ ih =>
    rcases ih with ⟨free, ih⟩
    refine ⟨true, ih.part ?_⟩
    simp [Site.parts, Expr.entered, Expr.childrenAreFree, Pattern.boundVarsAll_eq]
  | scrutinee _ ih =>
    rcases ih with ⟨free, ih⟩
    refine ⟨true, ih.part ?_⟩
    simp [Site.parts, Expr.entered, Expr.childrenAreFree]
  | branch _ hb ih =>
    rcases ih with ⟨free, ih⟩
    refine ⟨true, ih.part ?_⟩
    refine List.mem_map.mpr ⟨_, List.mem_cons_of_mem _ (List.mem_map_of_mem hb), ?_⟩
    simp [Expr.childrenAreFree]
  | @part around e c _ hlambda hcase hc ih =>
    rcases ih with ⟨free, ih⟩
    refine ⟨e.childrenAreFree, ih.part (List.mem_map.mpr ⟨([], c), ?_, by simp⟩)⟩
    cases e with
    | lambda => exact absurd rfl hlambda
    | case => exact absurd rfl hcase
    | _ => exact List.mem_map_of_mem hc

namespace ValueDecl

variable {place : Location → Prop} {v : ValueDecl} {site : Site}

theorem sites_eq (v : ValueDecl) : v.sites = v.site.all := rfl

/-- A nested value has one site for each node. -/
theorem site_eq_of_expr_eq (hv : v.body.Nested place) {site' : Site} (h : site ∈ v.sites)
    (h' : site' ∈ v.sites) (heq : site.expr = site'.expr) : site = site' := by
  have hnodup : (v.sites.map Site.expr).Nodup := by
    rw [sites, Expr.map_expr_sites]
    exact hv.nodup_nodes
  exact List.inj_on_of_nodup_map hnodup h h' heq

/-- The scope of a site is what the parameters and the patterns around its node bind, in
order. -/
theorem scope_eq (hv : v.body.Nested place) (h : site ∈ v.sites) {around : List Pattern}
    (haround : v.body.Around around site.expr) :
    site.scope = (v.params ++ around).flatMap Pattern.boundVars := by
  rcases haround.exists_site (Pattern.boundVarsAll v.params) true with ⟨free, hwithin⟩
  have hmem : _ ∈ v.sites := Site.mem_all_iff.mpr hwithin
  rw [site_eq_of_expr_eq hv h hmem rfl, List.flatMap_append, Pattern.boundVarsAll_eq]

theorem exists_around (h : site ∈ v.sites) : ∃ around, v.body.Around around site.expr := by
  rw [sites_eq, Site.mem_all_iff] at h
  rcases h.exists_around with ⟨around, haround, -⟩
  exact ⟨around, haround⟩

end ValueDecl

/-- A name that a pattern binds means nothing outside where the variables of the pattern are in
scope. -/
theorem Context.resolve_eq_none_of_binds (ctx : Context) {patterns : List Pattern}
    (hscope : ctx.scope = patterns.flatMap Pattern.boundVars) {p : Pattern} (hp : p ∈ patterns)
    {q : QualifiedName} (hbare : q.isQualified = false) (hbinds : p.Binds q.name) :
    ctx.resolve q = none := by
  have hmem : q.name ∈ ctx.scope := by
    rw [hscope]
    exact List.mem_flatMap.mpr ⟨p, hp, hbinds.mem_boundVars⟩
  rw [resolve, hbare, List.contains_iff_mem.mpr hmem]
  rfl

/-- The rules look at each node in the scope of the patterns around it. A walk with one scope
leaves every node with the scope it came with, looks at the sites of the node in order, and so
makes the findings of a module. The scope of a site is what the parameters of its value and the
patterns around its node bind, in order; so no name without a path that one of them binds is ever
taken for a value outside. -/
theorem scope_of_patterns_around {text : String} {m : Module} (hm : Module.parse text = .ok m) :
    (∀ (σ : Type) (see : σ → Site → σ) (w : Walker σ) (isFree : Bool) (e : Expr),
      (w.visit see isFree e).scope = w.scope ∧
        (w.visit see isFree e).kept = (e.sites w.scope isFree).foldl see w.kept) ∧
    (∀ (s : Simplifier) (knowledge : Knowledge),
      (Walker.run (Progress.visit s.rules (ModuleContext.ofModule m knowledge s.ignoredTypes))
        .start m).kept.findings = s.analyzeModule m knowledge) ∧
    ∀ v ∈ m.values, ∀ site ∈ v.sites,
      (∃ around, v.body.Around around site.expr) ∧
      ∀ around, v.body.Around around site.expr →
        site.scope = (v.params ++ around).flatMap Pattern.boundVars ∧
        (∀ name, name ∈ site.scope ↔ ∃ p ∈ v.params ++ around, p.Binds name) ∧
        ∀ p ∈ v.params ++ around, ∀ q : QualifiedName, q.isQualified = false → p.Binds q.name →
          ∀ context : ModuleContext,
            (⟨context, site.scope, site.isFree⟩ : Context).resolve q = none := by
  refine ⟨?_, ?_, ?_⟩
  · intro σ see w isFree e
    rw [Walker.visit_eq]
    exact ⟨rfl, rfl⟩
  · intro s knowledge
    rw [Walker.kept_run]
    rfl
  · intro v hv site hsite
    refine ⟨ValueDecl.exists_around hsite, ?_⟩
    intro around haround
    have hscope := ValueDecl.scope_eq ((Module.parse_nested hm).2 v hv) hsite haround
    refine ⟨hscope, ?_, ?_⟩
    · intro name
      rw [hscope, List.mem_flatMap]
      simp only [Pattern.mem_boundVars_iff]
    · intro p hp q hbare hbinds context
      exact Context.resolve_eq_none_of_binds ⟨context, site.scope, site.isFree⟩ hscope hp hbare
        hbinds

/-- The name of a library function is a parameter in the branch that binds it, and in the lambda
there, but not in the branch behind. -/
theorem scope_of_patterns_around_shadowed :
    ∃ m v, Module.parse
        "x f =\n    case f of\n        Just not -> \\y -> not True\n        Nothing -> not\n" =
          .ok m ∧ v ∈ m.values ∧
      v.sites.map Site.scope = [["f"], ["f"], ["f", "not"], ["f", "not", "y"],
        ["f", "not", "y"], ["f", "not", "y"], ["f"]] ∧
      ∀ site ∈ v.sites, ∃ around, v.body.Around around site.expr ∧
        site.scope = (v.params ++ around).flatMap Pattern.boundVars := by
  have hscopes : passesByDefault
      "x f =\n    case f of\n        Just not -> \\y -> not True\n        Nothing -> not\n"
      (fun m _ => m.values.any fun v => v.sites.map Site.scope = [["f"], ["f"], ["f", "not"],
        ["f", "not", "y"], ["f", "not", "y"], ["f", "not", "y"], ["f"]]) = true := by
    decide +kernel
  rcases exists_of_passesByDefault hscopes with ⟨m, s, hm, -, htest⟩
  rcases List.any_eq_true.mp htest with ⟨v, hv, htest⟩
  refine ⟨m, v, hm, hv, of_decide_eq_true htest, ?_⟩
  intro site hsite
  rcases (scope_of_patterns_around hm).2.2 v hv site hsite with ⟨⟨around, haround⟩, hscope⟩
  exact ⟨around, haround, (hscope around haround).1⟩

end Terse
