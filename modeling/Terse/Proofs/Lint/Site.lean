import Terse.Lint.Site
import Terse.Proofs.Tree.Nesting

/-!
# Where sites come from

The sites of an expression are met from the outside to the inside: an expression has its own site,
and then those of its parts in turn. A part has the scope of its whole and the variables that the
whole binds for it, and stands free when the form of the whole leaves it free.
-/

namespace Terse

namespace Expr

/-- The direct sub-expressions, each with the variables that it has in scope besides those of the
whole: the parameters of a lambda, or what the pattern of a branch binds. -/
def entered : Expr → List (List String × Expr)
  | lambda _ params body => [(Pattern.boundVarsAll params, body)]
  | case _ scrutinee branches =>
    ([], scrutinee) :: branches.map fun b => (b.pattern.boundVars, b.body)
  | e => e.children.map fun c => ([], c)

/-- All direct sub-expressions are entered, in their order. -/
theorem map_snd_entered (e : Expr) : e.entered.map Prod.snd = e.children := by
  cases e <;> simp [entered, children, Function.comp_def]

end Expr

/-- The sites of the direct parts of a site. -/
def Site.parts (s : Site) : List Site :=
  s.expr.entered.map fun (vars, c) => ⟨c, s.scope ++ vars, s.expr.childrenAreFree⟩

/-- All sites in a site: its own and those in its parts. -/
def Site.all (s : Site) : List Site := s.expr.sites s.scope s.isFree

namespace Expr

variable (scope : List String)

theorem sitesOfAll_eq (isFree : Bool) (es : List Expr) :
    sitesOfAll scope isFree es = es.flatMap fun e => e.sites scope isFree := by
  induction es with
  | nil => rw [sitesOfAll, List.flatMap_nil]
  | cons e es ih => rw [sitesOfAll, List.flatMap_cons, ih]

theorem sitesOfSetters_eq (ss : List Setter) :
    sitesOfSetters scope ss = ss.flatMap fun s => s.value.sites scope true := by
  induction ss with
  | nil => rw [sitesOfSetters, List.flatMap_nil]
  | cons s ss ih =>
    rcases s with ⟨field, value⟩
    rw [sitesOfSetters, List.flatMap_cons, ih, Setter.value]

theorem sitesOfBranches_eq (bs : List Branch) :
    sitesOfBranches scope bs =
      bs.flatMap fun b => b.body.sites (scope ++ b.pattern.boundVars) true := by
  induction bs with
  | nil => rw [sitesOfBranches, List.flatMap_nil]
  | cons b bs ih =>
    rcases b with ⟨pattern, body⟩
    rw [sitesOfBranches, List.flatMap_cons, ih, Branch.body, Branch.pattern]

end Expr

namespace Site

/-- A site comes first, and then the sites in each of its parts. -/
theorem all_eq (s : Site) : s.all = s :: s.parts.flatMap all := by
  rcases s with ⟨e, scope, isFree⟩
  cases e <;> simp [all, parts, Expr.entered, Expr.sites, Expr.children, Expr.childrenAreFree,
    Expr.sitesOfAll_eq, Expr.sitesOfSetters_eq, Expr.sitesOfBranches_eq, List.flatMap_map]

/-- A site is reached from another one by going from sites to their parts. -/
inductive Within (whole : Site) : Site → Prop where
  | self : Within whole whole
  | part {s p : Site} (h : Within whole s) (hp : p ∈ s.parts) : Within whole p

theorem Within.mem_all {whole s x : Site} (h : Within whole s) (hx : x ∈ s.all) :
    x ∈ whole.all := by
  induction h with
  | self => exact hx
  | part h hp ih =>
    apply ih
    rw [all_eq]
    exact List.mem_cons_of_mem _ (List.mem_flatMap.mpr ⟨_, hp, hx⟩)

theorem within_of_mem_all {whole s x : Site} (h : Within whole s) (hx : x ∈ s.all) :
    Within whole x := by
  rcases s with ⟨e, scope, isFree⟩
  induction e using Expr.induction_on_children generalizing scope isFree with
  | step e ih =>
    rw [all_eq] at hx
    rcases List.mem_cons.mp hx with rfl | hx
    · exact h
    · rcases List.mem_flatMap.mp hx with ⟨p, hp, hx⟩
      have hpart := h.part hp
      rcases List.mem_map.mp hp with ⟨⟨vars, c⟩, hc, rfl⟩
      have hchild : c ∈ e.children := by
        rw [← e.map_snd_entered]
        exact List.mem_map_of_mem hc
      exact ih c hchild _ _ hpart hx

/-- The sites in a site are those that are reached from it. -/
theorem mem_all_iff {whole x : Site} : x ∈ whole.all ↔ Within whole x := by
  constructor
  · intro hx
    exact within_of_mem_all .self hx
  · intro h
    apply h.mem_all
    rw [all_eq]
    exact List.mem_cons_self

end Site

/-- The body of a value stands free, in the scope of its parameters. -/
def ValueDecl.site (v : ValueDecl) : Site := ⟨v.body, Pattern.boundVarsAll v.params, true⟩

/-- The sites of a module are those that are reached from the bodies of its values. -/
theorem Module.mem_sites_iff {m : Module} {x : Site} :
    x ∈ m.sites ↔ ∃ v ∈ m.values, v.site.Within x := by
  simp only [sites, List.mem_flatMap, ← Site.mem_all_iff]
  rfl

end Terse
