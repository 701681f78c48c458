import Terse.Proofs.Lint.Analysis
import Terse.Proofs.View.Equality

/-!
# Shadowed names

Equality of expressions resolves every reference in the scope of the node that is looked at. A
pattern inside the expressions may bind a name that means something else outside; then a local
variable and what it shadows pass for the same.
-/

namespace Terse

/-- Equal expressions are equal with respect to their own binders unless, somewhere in them, a
variable that is bound inside one stands where the other has a reference that is not bound. -/
theorem equalInScope_iff (ctx : Context) (a b : Expr) :
    ctx.equalInScope a b = true ↔ ctx.areEqual a b = true ∧ a.bindsAlike b = true := by
  have hasks : ReferenceTest.Asks
      (fun bound bound' => (ctx.inside bound).sameAcross (ctx.inside bound'))
      (fun _ _ => ctx.sameReference)
      (fun bound bound' q q' => q.isBound bound == q'.isBound bound') := by
    intro bound q q'
    exact Context.sameAcross_inside bound q q'
  rw [Context.equalInScope, Expr.alike_and hasks, ← ctx.areEqual_eq_alike, Bool.and_eq_true]
  rfl

/-- The function for negation is not the parameter of the same name. -/
def shadowingSource : String := "x c = if c then \\not -> not else \\not -> Basics.not\n"

/-- The branches of a conditional are equal in its scope, but not with respect to the names that
they bind. -/
def Context.confusesBranches (ctx : Context) : Expr → Bool
  | .cond _ _ a b => ctx.areEqual a b && !ctx.equalInScope a b
  | _ => false

/-- Two functions with a parameter `not`, of which one returns it and the other one the negation,
are taken for the same, so that the conditional that chooses between them is removed. -/
theorem shadowed_name_confused :
    ∃ m s site f, Module.parse shadowingSource = .ok m ∧
      Simplifier.ofConfig .default = .ok s ∧ site ∈ m.sites ∧
      Context.confusesBranches ⟨ModuleContext.ofModule m ProjectIndex.core.knowledge
        s.ignoredTypes, site.scope, site.isFree⟩ site.expr = true ∧
      f ∈ s.analyzeModule m ProjectIndex.core.knowledge ∧
      f.applyTo shadowingSource = .ok "x c = \\not -> not\n" := by
  have hfound : passesByDefault shadowingSource (fun m s =>
      let m' := ModuleContext.ofModule m ProjectIndex.core.knowledge s.ignoredTypes
      m.sites.any (fun site =>
        Context.confusesBranches ⟨m', site.scope, site.isFree⟩ site.expr) &&
      (m.sites.findSome? fun site => Rule.firstFinding s.rules ⟨m', site.scope, site.isFree⟩
        site.expr).map Finding.edits = some [.remove ⟨⟨1, 7⟩, ⟨1, 17⟩⟩,
          .remove ⟨⟨1, 28⟩, ⟨1, 52⟩⟩]) = true := by
    decide +kernel
  have hplaces : (SourceText.ofString shadowingSource).placeAll
      [.remove ⟨⟨1, 7⟩, ⟨1, 17⟩⟩, .remove ⟨⟨1, 28⟩, ⟨1, 52⟩⟩] =
        .ok [⟨6, 16, _⟩, ⟨27, 51, _⟩] := rfl
  have hfixed : applyEdits shadowingSource
      [.remove ⟨⟨1, 7⟩, ⟨1, 17⟩⟩, .remove ⟨⟨1, 28⟩, ⟨1, 52⟩⟩] = .ok "x c = \\not -> not\n" := by
    rw [applyEdits, SourceText.apply_of_sorted hplaces (by decide)]
    rfl
  rcases exists_of_passesByDefault hfound with ⟨m, s, hm, hs, htest⟩
  rcases (Bool.and_eq_true _ _).mp htest with ⟨hany, hfirst⟩
  rcases List.any_eq_true.mp hany with ⟨site, hsite, hconfuses⟩
  rcases Option.map_eq_some_iff.mp (of_decide_eq_true hfirst) with ⟨f, hf, hedits⟩
  -- the first thing that is found is the first finding of the module
  rw [← Simplifier.head?_analyzeModule hm hs] at hf
  refine ⟨m, s, site, f, hm, hs, hsite, hconfuses, List.mem_of_mem_head? hf, ?_⟩
  rw [Finding.applyTo, hedits]
  exact hfixed

end Terse
