import Terse.Project.Index
import Terse.Proofs.Lint.Analysis
import Terse.Proofs.Rule.Surplus

/-!
# Fixes that split brackets

What is found in a module can always be applied, but the text that this makes may not be one that
can be read. The fix for surplus arguments starts at the outermost application, or at the name of
the function; where another application gives the last argument that the function takes, the fix
leaves one of two brackets.
-/

namespace Terse

/-- The fix for surplus arguments of `identity` or `always` splits brackets unless it starts
where the application starts that gives the last argument which the function takes. -/
theorem surplus_fix_splits_iff {text : String} {m : Module} (hm : Module.parse text = .ok m)
    {v : ValueDecl} (hv : v ∈ m.values) {e : Expr} (he : e ∈ v.body.nodes)
    (hform : Rule.basics.forms.contains e.form = true) {ctx : Context} {call : Call}
    (hcall : Call.ofExpr? ctx e = some call) {n : Nat} (hn : Rule.DropsArguments call n)
    (hlt : n < call.args.length) :
    ∃ f, Rule.basics.check ctx e = some f ∧
      (SplitsBrackets f.edits e ↔ Rule.headStart call e ≠ (e.callee.giver n).range.start) :=
  Rule.splitsBrackets_basics_iff (Module.node_nested hm hv he) hcall hn hlt hform

/-- A text that can be read and a finding in it whose fix makes a text that cannot be read: a
function and its only argument stand in parentheses, and another argument behind them is surplus. -/
theorem fixed_text_not_read :
    ∃ m s f t, Module.parse "x = (identity f) y\n" = .ok m ∧
      Simplifier.ofConfig .default = .ok s ∧
      f ∈ s.analyzeModule m (ProjectIndex.ofProject [m] []).knowledge ∧
      f.applyTo "x = (identity f) y\n" = .ok t ∧ ∀ m', Module.parse t ≠ .ok m' := by
  have hfound : passesByDefault "x = (identity f) y\n" (fun m s =>
      (m.sites.findSome? fun site => Rule.firstFinding s.rules
        ⟨ModuleContext.ofModule m (ProjectIndex.ofProject [m] []).knowledge s.ignoredTypes,
          site.scope, site.isFree⟩ site.expr).map Finding.edits =
        some [.remove ⟨⟨1, 5⟩, ⟨1, 15⟩⟩]) = true := by
    decide +kernel
  -- the fix takes the opening parenthesis with the function, and leaves the closing one
  have hfixed : applyEdits "x = (identity f) y\n" [.remove ⟨⟨1, 5⟩, ⟨1, 15⟩⟩] =
      .ok "x = f) y\n" := by
    decide +kernel
  have hrefused : (Module.parse "x = f) y\n").isOk = false := by
    decide +kernel
  rcases exists_of_passesByDefault hfound with ⟨m, s, hm, hs, htest⟩
  rcases Option.map_eq_some_iff.mp (of_decide_eq_true htest) with ⟨f, hf, hedits⟩
  -- the first thing that is found is the first finding of the module
  rw [← Simplifier.head?_analyzeModule hm hs] at hf
  refine ⟨m, s, f, "x = f) y\n", hm, hs, List.mem_of_mem_head? hf, ?_, ?_⟩
  · rw [Finding.applyTo, hedits]
    exact hfixed
  · intro m' hm'
    rw [hm'] at hrefused
    contradiction

end Terse
