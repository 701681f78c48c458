import Terse.Project.Index
import Terse.Proofs.Edit.Frame
import Terse.Proofs.Grammar.ModuleStanding
import Terse.Proofs.Rule.Catalog

/-!
# Findings stay in their nodes

A rule may look at any node of a module that was read from a text, in any scope and whether the
node stands free or not. What it finds there lies in the node, and so does all that its fix
changes.
-/

namespace Terse

/-- The nodes of a module that was read from a text are nested in that text. -/
theorem Module.node_nested {text : String} {m : Module} (hm : Module.parse text = .ok m)
    {v : ValueDecl} (hv : v ∈ m.values) {e : Expr} (he : e ∈ v.body.nodes) :
    e.Nested (SourceText.ofString text).HasPlace :=
  (((Module.parse_nested hm).2 v hv).nodes he).1

namespace SourceText

variable {s : SourceText}

theorem admits_of_fits {e : Edit} {whole : Range} (h : e.range.Fits s.HasPlace whole) :
    s.Admits e :=
  ⟨h.le, h.start, h.stop⟩

/-- A fix that fits can be applied. -/
theorem exists_apply_of_fits {es : List Edit} {whole : Range} (h : FixFits s.HasPlace whole es) :
    ∃ t, s.apply es = .ok t :=
  exists_apply_eq_ok (fun e he => admits_of_fits (h.fits e he)) h.apart

end SourceText

/-- What a rule finds at a node of a module has a fix that changes something. The finding and all
its edits lie in the node, in order; the edits do not clash, so that the finding is reported as it
is, and its fix can be applied and changes nothing before the node or behind it. -/
theorem finding_stays_in_node {text : String} {m : Module} (hm : Module.parse text = .ok m)
    {v : ValueDecl} (hv : v ∈ m.values) {e : Expr} (he : e ∈ v.body.nodes) {rule : Rule}
    (hrule : rule ∈ Rule.all) {ctx : Context} {f : Finding} (hf : rule.check ctx e = some f) :
    (∃ edits, f.fix = some edits ∧ edits ≠ []) ∧
      f.range.start ≤ f.range.stop ∧ e.range.contains f.range = true ∧
      (∀ edit ∈ f.edits, edit.range.start ≤ edit.range.stop ∧
        e.range.contains edit.range = true) ∧
      f.clash? = none ∧ f.checked = f ∧
      ∃ i j new, (SourceText.ofString text).index? e.range.start = some i ∧
        (SourceText.ofString text).index? e.range.stop = some j ∧ i < j ∧
        f.applyTo text = .ok (String.ofList (text.toList.take i ++ new ++ text.toList.drop j)) := by
  have hnested := Module.node_nested hm hv he
  have hfits := Rule.fits_of_mem_all hrule ctx e hnested f hf
  have hfix := hfits.fixFits
  -- what fits into the node is what the report says it contains
  have hcontains : ∀ {r : Range}, r.Fits (SourceText.ofString text).HasPlace e.range →
      e.range.contains r = true := by
    intro r hr
    simp only [Range.contains, Bool.and_eq_true, decide_eq_true_eq]
    exact ⟨hr.start_le, hr.le_stop⟩
  refine ⟨?_, hfits.range.le, hcontains hfits.range, ?_, hfits.clash?_eq_none, hfits.checked_eq, ?_⟩
  · rcases hfits.fix with ⟨edits, hedits, hfits⟩
    exact ⟨edits, hedits, hfits.ne_nil⟩
  · intro edit hedit
    exact ⟨(hfix.fits edit hedit).le, hcontains (hfix.fits edit hedit)⟩
  · rcases SourceText.exists_apply_of_fits hfix with ⟨t, ht⟩
    -- both ends of the node are places of the text, so the frame of the edits is what is outside it
    rcases Option.isSome_iff_exists.mp hnested.proper.start with ⟨i, hi⟩
    rcases Option.isSome_iff_exists.mp hnested.proper.stop with ⟨j, hj⟩
    obtain ⟨new, hnew⟩ := SourceText.apply_frame ht hi hj hnested.proper.le fun edit hedit =>
      ⟨(hfix.fits edit hedit).start_le, (hfix.fits edit hedit).le_stop⟩
    refine ⟨i, j, new, hi, hj, (SourceText.lt_iff_index_lt hi hj).mp hnested.proper.lt, ?_⟩
    refine map_ok_iff.mpr ⟨t, ht, ?_⟩
    rw [SourceText.text, hnew]
    rfl

/-! ## Nodes of a given text -/

/-- The context of a module on its own, at a place with nothing in scope. -/
def Context.ofModule (m : Module) : Context :=
  ⟨ModuleContext.ofModule m ProjectIndex.core.knowledge [], [], true⟩

/-- Some node of a text passes a test. -/
def someNode (source : String) (test : Context → Expr → Bool) : Bool :=
  match Module.parse source with
  | .ok m => m.values.any fun v => v.body.nodes.any (test (.ofModule m))
  | .error _ => false

theorem exists_of_someNode {source : String} {test : Context → Expr → Bool}
    (h : someNode source test = true) :
    ∃ m v e ctx, Module.parse source = .ok m ∧ v ∈ m.values ∧ e ∈ v.body.nodes ∧
      test ctx e = true := by
  unfold someNode at h
  split at h
  · rename_i m hm
    rcases List.any_eq_true.mp h with ⟨v, hv, hnodes⟩
    rcases List.any_eq_true.mp hnodes with ⟨e, he, htest⟩
    exact ⟨m, v, e, _, hm, hv, he, htest⟩
  · contradiction

/-- Some call in a text passes a test, with what a rule finds there. -/
def someCall (source : String) (rule : Rule) (test : Expr → Call → Finding → Bool) : Bool :=
  someNode source fun ctx e =>
    match Call.ofExpr? ctx e, rule.check ctx e with
    | some call, some f => test e call f
    | _, _ => false

theorem exists_of_someCall {source : String} {rule : Rule} {test : Expr → Call → Finding → Bool}
    (h : someCall source rule test = true) :
    ∃ m v e ctx call f, Module.parse source = .ok m ∧ v ∈ m.values ∧ e ∈ v.body.nodes ∧
      Call.ofExpr? ctx e = some call ∧ rule.check ctx e = some f ∧ test e call f = true := by
  rcases exists_of_someNode h with ⟨m, v, e, ctx, hm, hv, he, htest⟩
  split at htest
  · rename_i call f hcall hf
    exact ⟨m, v, e, ctx, call, f, hm, hv, he, hcall, hf, htest⟩
  · contradiction

/-- A double negation is found in its own node, inside a tuple. -/
theorem finding_stays_in_node_double_negation :
    ∃ m v e ctx f, Module.parse "x y =\n    (not (not y), y)\n" = .ok m ∧ v ∈ m.values ∧
      e ∈ v.body.nodes ∧ Rule.notCalls.check ctx e = some f ∧ f.checked = f := by
  have hfound : someNode "x y =\n    (not (not y), y)\n"
      (fun ctx e => (Rule.notCalls.check ctx e).isSome) = true := by
    decide +kernel
  rcases exists_of_someNode hfound with ⟨m, v, e, ctx, hm, hv, he, hsome⟩
  rcases Option.isSome_iff_exists.mp hsome with ⟨f, hf⟩
  have hrule : Rule.notCalls ∈ Rule.all := Rule.ofCode_mem_all .notCalls
  rcases finding_stays_in_node hm hv he hrule hf with ⟨-, -, -, -, -, hchecked, -⟩
  exact ⟨m, v, e, ctx, f, hm, hv, he, hf, hchecked⟩

end Terse
