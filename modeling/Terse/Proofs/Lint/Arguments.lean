import Terse.Proofs.Lint.Node
import Terse.Proofs.Lint.Analysis
import Terse.Proofs.Rule.Arguments
import Terse.Proofs.Rule.Persistence

/-!
# Calls with too many arguments and with too few

A function may return a function, so that a call can have more arguments than the function takes;
and it may have fewer. The families of calls do not count arguments. Here is what becomes of
surplus ones: a fix of a whole call drops them all. And a call that lacks arguments stays a
function, with one exception. A call that is reported stays reported when arguments are added.
-/

namespace Terse

/-! ## Too many arguments -/

/-- A fix leaves a range alone that stands outside two locations which enclose its edits. -/
theorem SourceText.untouched {s t : SourceText} {es : List Edit} {whole r : Range}
    {a b : Location} (hfix : FixFits s.HasPlace whole es) (ht : s.apply es = .ok t)
    (ha : s.HasPlace a) (hb : s.HasPlace b) (hab : a ≤ b)
    (hin : ∀ e ∈ es, a ≤ e.range.start ∧ e.range.stop ≤ b) (hr : r.Proper s.HasPlace)
    (hout : r.stop ≤ a ∨ b ≤ r.start) :
    (∀ e ∈ es, e.range.touches r = false) ∧ (s.extract r).toList <:+: t.chars := by
  constructor
  · intro e he
    have hle := (hfix.fits e he).le
    have hlt := hr.lt
    rcases hin e he with ⟨hstart, hstop⟩
    rw [Range.touches_eq_false_iff hle hr.le]
    -- the order of their ends is not enough: empty ranges at one place touch, but `r` is not empty
    rcases hout with hout | hout
    · have hbefore : r.stop ≤ e.range.start := hout.trans hstart
      exact apart_symm (apart_of_le hbefore (hlt.trans_le (hbefore.trans hle)))
    · have hbehind : e.range.stop ≤ r.start := hstop.trans hout
      exact apart_of_le hbehind (hle.trans_lt (hbehind.trans_lt hlt))
  · rcases Option.isSome_iff_exists.mp ha with ⟨i, hi⟩
    rcases Option.isSome_iff_exists.mp hb with ⟨j, hj⟩
    rcases Option.isSome_iff_exists.mp hr.start with ⟨p, hp⟩
    rcases Option.isSome_iff_exists.mp hr.stop with ⟨q, hq⟩
    exact apply_keeps_extract ht hi hj hab hin hp hq hr.le hout

/-- What is found in a call with more arguments than its function takes is what is found without
them. If the call is rewritten inside, then no edit touches a surplus argument, and its text is
still there in the fixed text; otherwise each surplus argument is rewritten with the call. -/
theorem surplus_arguments_fixed {text : String} {m : Module} (hm : Module.parse text = .ok m)
    {v : ValueDecl} (hv : v ∈ m.values) {e : Expr} (he : e ∈ v.body.nodes) {family : Family}
    (hfamily : family ∈ Family.all) {ctx : Context} {call : Call} {f : Finding}
    (hcall : Call.ofExpr? ctx e = some call)
    (hf : (Rule.ofCode family.library.code).check ctx e = some f) :
    ∃ n, Core.arity? call.function = some n ∧ (n < call.args.length →
      family.checkCall ctx (call.cut n) = some f ∧
      (call.RewrittenInside ctx → ∃ t, f.applyTo text = .ok t ∧ ∀ b ∈ call.args.drop n,
        (∀ edit ∈ f.edits, edit.range.touches b.range = false) ∧
        ((SourceText.ofString text).extract b.range).toList <:+: t.toList) ∧
      (¬ call.RewrittenInside ctx → ∀ b ∈ call.args.drop n,
        ∃ edit ∈ f.edits, edit.range.contains b.range = true)) := by
  have hnested := Module.node_nested hm hv he
  have hfix := (Rule.ofCode_fits family.library.code ctx e hnested f hf).fixFits
  rw [Family.check_ofCode hfamily hcall] at hf
  rcases Family.exists_treated hfamily hf with ⟨n, harity, hcut, htreated⟩
  refine ⟨n, harity, fun hn => ⟨hcut hn.le, fun hinside => ?_, fun hinside b hb => ?_⟩⟩
  · rcases htreated with ⟨hnot, -, -⟩ | ⟨-, -, h⟩ | ⟨hnot, -, -⟩
    · exact absurd hinside hnot
    · rcases h.within hnested hcall hn with ⟨a, -, hmem, hedits⟩
      rcases SourceText.exists_apply_of_fits hfix with ⟨t, ht⟩
      have hfills := (Call.ofExpr?_fills hnested hcall).1
      have ha := (hfills.arg_lies (List.mem_of_mem_take hmem)).1.proper
      have hfn := hfills.stands.fn
      refine ⟨t.text, map_ok_iff.mpr ⟨t, ht, rfl⟩, fun b hb => ?_⟩
      have hproper := (hfills.arg_lies (List.mem_of_mem_drop hb)).1.proper
      rcases Call.surplus_sides hnested hcall hmem hb with ⟨hbehind, hside⟩
      have hle : call.fnRange.start ≤ a.range.stop := hfn.le.trans (hbehind.trans ha.le)
      rw [SourceText.text, String.toList_ofList]
      exact SourceText.untouched hfix ht hfn.start ha.stop hle hedits hproper hside.symm
    · exact absurd hinside hnot
  · rcases htreated with ⟨-, -, h⟩ | ⟨h, -, -⟩ | ⟨-, ⟨hfunction, a, hargs, -⟩, -⟩
    · exact h.covers hnested hcall hn.le hb
    · exact absurd h hinside
    · -- the function has two arguments, and the call one
      rw [hfunction] at harity
      cases harity
      simp [hargs] at hn

/-- A fold over the empty list, whose result is given one more argument. -/
def foldSource : String := "x = List.foldl f g [] y\n"

/-- The fix of the fold keeps the start value and removes all else. -/
theorem exists_call_of_fold :
    ∃ m v e ctx call f b, Module.parse foldSource = .ok m ∧ v ∈ m.values ∧ e ∈ v.body.nodes ∧
      Call.ofExpr? ctx e = some call ∧ Rule.Lists.rule.check ctx e = some f ∧
      call.function = ⟨Core.list, "foldl"⟩ ∧ call.args.drop 3 = [b] ∧
      b.range = ⟨⟨1, 23⟩, ⟨1, 24⟩⟩ ∧
      f.edits = [.remove ⟨⟨1, 5⟩, ⟨1, 18⟩⟩, .remove ⟨⟨1, 19⟩, ⟨1, 24⟩⟩] := by
  have h : someCall foldSource Rule.Lists.rule (fun _ call f =>
      call.function = ⟨Core.list, "foldl"⟩ &&
        (call.args.drop 3).map Expr.range = [⟨⟨1, 23⟩, ⟨1, 24⟩⟩] &&
        f.edits = [.remove ⟨⟨1, 5⟩, ⟨1, 18⟩⟩, .remove ⟨⟨1, 19⟩, ⟨1, 24⟩⟩]) = true := by
    decide +kernel
  rcases exists_of_someCall h with ⟨m, v, e, ctx, call, f, hm, hv, he, hcall, hf, htest⟩
  simp only [Bool.and_eq_true, decide_eq_true_eq, List.map_eq_singleton_iff] at htest
  rcases htest with ⟨⟨hfunction, b, hb, hrange⟩, hedits⟩
  exact ⟨m, v, e, ctx, call, f, b, hm, hv, he, hcall, hf, hfunction, hb, hrange, hedits⟩

/-- The last argument of the fold is rewritten with the call. -/
theorem surplus_arguments_fixed_fold :
    ∃ m v e ctx call f b, Module.parse foldSource = .ok m ∧ v ∈ m.values ∧ e ∈ v.body.nodes ∧
      Call.ofExpr? ctx e = some call ∧ Rule.Lists.rule.check ctx e = some f ∧
      call.args.drop 3 = [b] ∧ Rule.Lists.family.checkCall ctx (call.cut 3) = some f ∧
      ∃ edit ∈ f.edits, edit.range.contains b.range = true := by
  rcases exists_call_of_fold with
    ⟨m, v, e, ctx, call, f, b, hm, hv, he, hcall, hf, hfunction, hb, -, -⟩
  have hfamily : Rule.Lists.family ∈ Family.all := List.mem_cons_self
  rcases surplus_arguments_fixed hm hv he hfamily hcall hf with ⟨n, harity, h⟩
  obtain rfl : 3 = n := by
    rw [hfunction] at harity
    exact Option.some.inj harity
  have hlength : 3 < call.args.length := by
    have hone := congrArg List.length hb
    rw [List.length_drop, List.length_singleton] at hone
    omega
  have hinside : ¬ call.RewrittenInside ctx :=
    Call.not_rewrittenInside (by rw [hfunction]; decide)
  rcases h hlength with ⟨hcut, -, hcovers⟩
  have hmem : b ∈ call.args.drop 3 := by
    rw [hb]
    exact List.mem_singleton.mpr rfl
  exact ⟨m, v, e, ctx, call, f, b, hm, hv, he, hcall, hf, hb, hcut, hcovers hinside b hmem⟩

/-- The function that the fold returns is no longer applied: the text of its argument is gone. -/
theorem fold_loses_surplus_argument :
    ∃ m v e ctx call f b t, Module.parse foldSource = .ok m ∧ v ∈ m.values ∧
      e ∈ v.body.nodes ∧ Call.ofExpr? ctx e = some call ∧
      Rule.Lists.rule.check ctx e = some f ∧ Core.arity? call.function = some 3 ∧
      call.args.drop 3 = [b] ∧ f.applyTo foldSource = .ok t ∧ t = "x = g\n" ∧
      ¬ ((SourceText.ofString foldSource).extract b.range).toList <:+: t.toList := by
  rcases exists_call_of_fold with
    ⟨m, v, e, ctx, call, f, b, hm, hv, he, hcall, hf, hfunction, hb, hrange, hedits⟩
  have hplaces : (SourceText.ofString foldSource).placeAll
      [.remove ⟨⟨1, 5⟩, ⟨1, 18⟩⟩, .remove ⟨⟨1, 19⟩, ⟨1, 24⟩⟩] =
        .ok [⟨4, 17, _⟩, ⟨18, 23, _⟩] := rfl
  have hfixed : applyEdits foldSource
      [.remove ⟨⟨1, 5⟩, ⟨1, 18⟩⟩, .remove ⟨⟨1, 19⟩, ⟨1, 24⟩⟩] = .ok "x = g\n" := by
    rw [applyEdits, SourceText.apply_of_sorted hplaces (by decide)]
    rfl
  refine ⟨m, v, e, ctx, call, f, b, _, hm, hv, he, hcall, hf, ?_, hb, ?_, rfl, ?_⟩
  · rw [hfunction]
    rfl
  · rw [Finding.applyTo, hedits]
    exact hfixed
  · rw [hrange]
    decide

/-! ## Too few arguments -/

/-- A call that lacks arguments is fixed to a function, unless it intersects the empty set with
a set that it does not have yet: that becomes the empty set. -/
theorem partial_calls_fixed {family : Family} (hfamily : family ∈ Family.all) {ctx : Context}
    {e : Expr} {call : Call} {f : Finding} (hcall : Call.ofExpr? ctx e = some call)
    (hf : (Rule.ofCode family.library.code).check ctx e = some f) :
    ∃ n, Core.arity? call.function = some n ∧ (call.args.length < n →
      (¬ call.FinishesEarly ctx → call.LeavesFunction ctx f.edits) ∧
      (call.FinishesEarly ctx →
        f.edits = [ctx.replaceBy call.range (ctx.qualify Core.set "empty") true])) := by
  rw [Family.check_ofCode hfamily hcall] at hf
  rcases Family.exists_treated hfamily hf with ⟨n, harity, -, htreated⟩
  have hpath := (Family.checkCall_eq_some_iff.mp hf).1
  refine ⟨n, harity, fun hlt => ⟨fun hnot => ?_, fun hearly => ?_⟩⟩
  · rcases htreated with ⟨-, -, h⟩ | ⟨hinside, -, h⟩ | ⟨-, hearly, -⟩
    · exact h.leavesFunction hlt
    · exact h.leavesFunction hpath hinside harity hlt
    · exact absurd hearly hnot
  · rcases htreated with ⟨-, hnot, -⟩ | ⟨-, hnot, -⟩ | ⟨-, -, h⟩
    · exact absurd hearly hnot
    · exact absurd hearly hnot
    · exact h

/-- A map with the identity becomes the identity. -/
theorem partial_calls_fixed_map :
    ∃ ctx e call f, Call.ofExpr? ctx e = some call ∧ call.args.length = 1 ∧
      Core.arity? call.function = some 2 ∧ Rule.Lists.rule.check ctx e = some f ∧
      call.LeavesFunction ctx f.edits := by
  have h : someCall "x = List.map identity\n" (Rule.ofCode Rule.Lists.family.library.code)
      (fun _ call _ => call.function = ⟨Core.list, "map"⟩ && call.args.length = 1) = true := by
    decide +kernel
  rcases exists_of_someCall h with ⟨m, v, e, ctx, call, f, -, -, -, hcall, hf, htest⟩
  simp only [Bool.and_eq_true, decide_eq_true_eq] at htest
  rcases htest with ⟨hfunction, hlength⟩
  have hfamily : Rule.Lists.family ∈ Family.all := List.mem_cons_self
  rcases partial_calls_fixed hfamily hcall hf with ⟨n, harity, hpartial⟩
  obtain rfl : 2 = n := by
    rw [hfunction] at harity
    exact Option.some.inj harity
  have hearly : ¬ call.FinishesEarly ctx :=
    Call.not_finishesEarly (by rw [hfunction]; decide)
  exact ⟨ctx, e, call, f, hcall, hlength, harity, hf, (hpartial (by omega)).1 hearly⟩

/-- The empty set as the only argument of a function of two sets. -/
def intersectSource : String := "import Set\nx = Set.intersect Set.empty\n"

/-- A function from sets to sets becomes a set. -/
theorem intersect_finishes_early :
    ∃ m v e ctx call f, Module.parse intersectSource = .ok m ∧ v ∈ m.values ∧
      e ∈ v.body.nodes ∧ Call.ofExpr? ctx e = some call ∧ Core.arity? call.function = some 2 ∧
      call.args.length = 1 ∧ Rule.Collection.setFamily.rule.check ctx e = some f ∧
      f.applyTo intersectSource = .ok "import Set\nx = Set.empty\n" := by
  have h : someCall intersectSource Rule.Collection.setFamily.rule (fun _ call f =>
      call.function = ⟨Core.set, "intersect"⟩ && call.args.length = 1 &&
        f.edits = [.replace ⟨⟨2, 5⟩, ⟨2, 28⟩⟩ "Set.empty"]) = true := by
    decide +kernel
  have hfixed : applyEdits intersectSource [.replace ⟨⟨2, 5⟩, ⟨2, 28⟩⟩ "Set.empty"] =
      .ok "import Set\nx = Set.empty\n" := by
    decide +kernel
  rcases exists_of_someCall h with ⟨m, v, e, ctx, call, f, hm, hv, he, hcall, hf, htest⟩
  simp only [Bool.and_eq_true, decide_eq_true_eq] at htest
  rcases htest with ⟨⟨hfunction, hlength⟩, hedits⟩
  refine ⟨m, v, e, ctx, call, f, hm, hv, he, hcall, ?_, hlength, hf, ?_⟩
  · rw [hfunction]
    rfl
  · rw [Finding.applyTo, hedits]
    exact hfixed

/-! ## Further arguments -/

/-- An application is left to the family, also by the rules that check operators as well. -/
theorem Family.check_app {family : Family} (h : family ∈ all) (ctx : Context) (r : Range)
    (fn : Expr) (args : List Expr) :
    (Rule.ofCode family.library.code).check ctx (.app r fn args) =
      family.check ctx (.app r fn args) := by
  simp only [all, List.mem_cons, List.not_mem_nil, or_false] at h
  rcases h with rfl | rfl | rfl | rfl | rfl | rfl | rfl | rfl <;> rfl

/-- With more arguments written behind those of a call, it is a call that continues the first. -/
theorem Call.ofExpr?_app_append {ctx : Context} {r : Range} {fn : Expr} {args : List Expr}
    {c : Call} (h : ofExpr? ctx (.app r fn args) = some c) (r' : Range) (more : List Expr) :
    ∃ c', ofExpr? ctx (.app r' fn (args ++ more)) = some c' ∧ c.Continues c' := by
  cases within_eq_some_iff.mp h with
  | @app _ _ _ _ inner hinner hdirect =>
    refine ⟨{ inner with args := inner.args ++ (args ++ more), form := .direct, range := r' },
      within_eq_some_iff.mpr (.app hinner hdirect), ⟨rfl, rfl, rfl, ?_⟩⟩
    rw [← List.append_assoc]
    exact List.prefix_append _ more

/-- What a family reports about a call that is written in one piece it also reports when further
arguments follow, with the same message, unless the call is one of `String.join`. -/
theorem further_arguments_reported {family : Family} (hfamily : family ∈ Family.all)
    {ctx : Context} {r : Range} {fn : Expr} {args : List Expr} {f : Finding}
    (hf : (Rule.ofCode family.library.code).check ctx (.app r fn args) = some f) (r' : Range)
    (more : List Expr) :
    ∃ call f', Call.ofExpr? ctx (.app r fn args) = some call ∧
      (Rule.ofCode family.library.code).check ctx (.app r' fn (args ++ more)) = some f' ∧
      f'.rule = f.rule ∧ (call.function ≠ ⟨Core.string, "join"⟩ → f'.message = f.message) := by
  have hcheck := hf
  rw [Family.check_app hfamily, Family.check, Option.bind_eq_some_iff] at hcheck
  obtain ⟨c, hcall, hcheck⟩ := hcheck
  obtain ⟨c', hcall', hcontinues⟩ := Call.ofExpr?_app_append hcall r' more
  obtain ⟨f', hf', hsame⟩ := Family.checkCall_persists hfamily hcontinues hcheck
  refine ⟨c, f', hcall, ?_, hsame⟩
  rw [Family.check_ofCode hfamily hcall']
  exact hf'

/-- A map with the identity is reported with every list behind it, too. -/
theorem further_arguments_reported_map :
    ∃ ctx r fn args call f, Call.ofExpr? ctx (.app r fn args) = some call ∧
      call.args.length = 1 ∧ Rule.Lists.rule.check ctx (.app r fn args) = some f ∧
      ∀ l, ∃ f', Rule.Lists.rule.check ctx (.app r fn (args ++ [l])) = some f' ∧
        f'.message = f.message := by
  have h : someCall "x = List.map identity\n" (Rule.ofCode Rule.Lists.family.library.code)
      (fun e call _ => call.function = ⟨Core.list, "map"⟩ && call.args.length = 1 &&
        e.form = .app) = true := by
    decide +kernel
  obtain ⟨m, v, e, ctx, call, f, -, -, -, hcall, hf, htest⟩ := exists_of_someCall h
  simp only [Bool.and_eq_true, decide_eq_true_eq] at htest
  obtain ⟨⟨hfunction, hlength⟩, hform⟩ := htest
  cases e with
  | app r fn args =>
    refine ⟨ctx, r, fn, args, call, f, hcall, hlength, hf, ?_⟩
    intro l
    have hfamily : Rule.Lists.family ∈ Family.all := List.mem_cons_self
    obtain ⟨c, f', hc, hf', -, hmessage⟩ := further_arguments_reported hfamily hf r [l]
    obtain rfl : c = call := Option.some.inj (hc.symm.trans hcall)
    refine ⟨f', hf', hmessage ?_⟩
    rw [hfunction]
    decide
  | _ => cases hform

end Terse
