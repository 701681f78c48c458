import Terse.Proofs.Lint.Highlight
import Terse.Proofs.Lint.Scope
import Terse.Proofs.Tree.Twin
import Terse.Proofs.View.Agreement
import Terse.Proofs.View.Naming

/-!
# The order of findings

Findings are reported in the order of their nodes. What a finding points at may stand behind other
parts of its node, and a part that ends before it may have a finding of its own, which comes later
all the same. In all other cases findings are in the order of what they point at.
-/

namespace Terse

variable {place : Location → Prop}

/-! ## Parts of a node beside what a finding at the node points at -/

/-- What is no pair of parentheses is inside all parentheses around a node that it is in. -/
theorem Expr.mem_nodes_stripParens {e n : Expr} (hn : n ∈ e.nodes) (hform : n.form ≠ .paren) :
    n ∈ e.stripParens.nodes := by
  have hbare : n.isBare = true := by
    cases n with
    | paren => exact absurd rfl hform
    | _ => rfl
  apply mem_nodes_of_mem_bareNodes
  rw [bareNodes_stripParens]
  exact List.mem_filter.mpr ⟨hn, hbare⟩

/-- A node in a list that is neither the list nor parentheses around it is one of an element. -/
theorem Expr.exists_element_of_mem_nodes {l n : Expr} {elements : List Expr}
    (hl : l.list? = some elements) (hn : n ∈ l.nodes) (hparen : n.form ≠ .paren)
    (hlist : n.form ≠ .list) : ∃ x ∈ elements, n ∈ x.nodes := by
  have hin := mem_nodes_stripParens hn hparen
  unfold list? at hl
  split at hl
  · rename_i r items heq
    cases hl
    rw [heq, nodes_eq] at hin
    rcases List.mem_cons.mp hin with rfl | hin
    · exact absurd rfl hlist
    · exact List.mem_flatMap.mp hin
  · cases hl

namespace Finding

/-- The node is one that may have parts in front of what the finding points at. -/
def LeavesFront (f : Finding) (e : Expr) : Prop :=
  e.form = .binary ∨ e.form = .update ∨ e.form = .app ∧ (f.rule = .cmd ∨ f.rule = .sub)

/-- Where a part of the node of a finding stands. -/
inductive Sides (ctx : Context) (f : Finding) (e n : Expr) : Prop where
  /-- The part does not begin before what the finding points at. -/
  | behind (h : f.range.start ≤ n.range.start)
  /-- The part ends before it. -/
  | before (h : n.range.stop ≤ f.range.start) (hfront : f.LeavesFront e)
  /-- The fix changes something in the part. -/
  | rewritten (h : f.Rewrites n.range)
  /-- The part calls the function that the finding points at, with the same variables in scope. -/
  | named {c : Call} (haround : e.Around [] n) (hcall : Call.ofExpr? ctx n = some c)
    (hdirect : c.form = .direct) (hnot : c.isOf Core.basics "not" = false)
    (h : f.range = c.fnRange)

end Finding

/-- Nodes that rules look at and that call a function directly are applications. -/
theorem Call.exists_app_of_direct {ctx : Context} {n : Expr} {c : Call}
    (h : ofExpr? ctx n = some c) (hdirect : c.form = .direct) (hform : n.form ∈ Rule.formsOfAll) :
    ∃ r fn args, n = .app r fn args ∧ args.length ≤ c.args.length := by
  cases within_eq_some_iff.mp h with
  | app => exact ⟨_, _, _, rfl, by simp⟩
  | paren | var => simp [Expr.form, Rule.formsOfAll] at hform
  -- a pipe is not direct
  | pipeRight | pipeLeft => cases hdirect

/-- A part of an application is in what is applied, or stands behind it. -/
theorem Expr.Nested.mem_fn_or_behind {r : Range} {fn n : Expr} {args : List Expr}
    (he : (Expr.app r fn args).Nested place) (hn : n ∈ (Expr.app r fn args).nodes)
    (hne : n ≠ .app r fn args) : n ∈ fn.nodes ∨ fn.range.stop ≤ n.range.start := by
  rw [Expr.nodes_eq] at hn
  rcases List.mem_flatMap.mp ((List.mem_cons.mp hn).resolve_left hne) with ⟨c, hc, hnc⟩
  rw [Expr.Nested] at he
  rcases List.mem_cons.mp hc with rfl | harg
  · exact .inl hnc
  · have hlies := Expr.lies_of_mem he.2.2.2.2 harg
    exact .inr (hlies.2.1.trans (hlies.1.nodes hnc).2.1)

/-- The parameters of a lambda stand before its body. -/
theorem Expr.Nested.param_start_lt {r : Range} {param : Pattern} {more : List Pattern} {body : Expr}
    (h : (Expr.lambda r (param :: more) body).Nested place) :
    param.range.start < body.range.start := by
  rw [Expr.Nested] at h
  rcases h with ⟨-, -, first, last, -, hparams, hlast, -⟩
  rw [Pattern.NestedAll] at hparams
  have hparam := hparams.2.1.proper.lt
  have hmore := InLine.le (fun _ h => h.proper.le) (Pattern.nestedAll_iff.mp hparams.2.2)
  order

namespace Finding

variable {ctx : Context} {f : Finding} {e n : Expr}

/-- Behind the parameters of a lambda that is applied stand its body and the arguments. -/
theorem parameter_start_le {r lambdaRange : Range} {fn body : Expr} {args : List Expr}
    {param : Pattern} {more : List Pattern}
    (he : (Expr.app r fn args).Nested place) (hn : n ∈ (Expr.app r fn args).nodes)
    (hne : n ≠ .app r fn args) (hform : n.form ∈ Rule.formsOfAll)
    (hfn : fn.stripParens = .lambda lambdaRange (param :: more) body)
    (h : f.range = param.range) : f.range.start ≤ n.range.start := by
  have hfnNested := (he.children (c := fn) List.mem_cons_self).1
  have hstrip := Expr.Lies.stripParens ⟨hfnNested, le_rfl, le_rfl⟩
  rw [hfn] at hstrip
  rcases hstrip with ⟨hlambda, -, hlambdaStop⟩
  have hbefore := hlambda.param_start_lt
  have hbody := hlambda.children (c := body) (List.mem_singleton.mpr rfl)
  rw [h]
  rcases he.mem_fn_or_behind hn hne with hin | hbehind
  · -- what is looked at in the function is in the body of the lambda
    have hbelow := Expr.mem_nodes_stripParens hin (ne_of_mem_of_not_mem hform (by decide))
    rw [hfn, Expr.nodes_eq] at hbelow
    rcases List.mem_cons.mp hbelow with rfl | hbelow
    · simp [Expr.form, Rule.formsOfAll] at hform
    · rcases List.mem_flatMap.mp hbelow with ⟨c, hc, hnc⟩
      rcases List.mem_singleton.mp hc with rfl
      exact hbefore.le.trans (hbody.1.nodes hnc).2.1
  · have hbodyLe := hbody.1.le
    have hbodyStop := hbody.2.2
    order

/-- What is looked at in a call stands behind the name of the function, or before it if the call is
a pipe, or calls the same function with fewer arguments. -/
theorem sides_name {call : Call} (he : e.Nested place) (hlooked : e.form ∈ Rule.formsOfAll)
    (hn : n ∈ e.nodes) (hne : n ≠ e) (hform : n.form ∈ Rule.formsOfAll)
    (hcall : Call.ofExpr? ctx e = some call)
    (hnot : call.isOf Core.basics "not" = true → call.args.length ≤ 1)
    (h : f.range = call.fnRange) : f.Sides ctx e n := by
  have hparen : e.form ≠ .paren := ne_of_mem_of_not_mem hlooked (by decide)
  rcases Call.part_names he hcall hparen hn hne with hbehind | ⟨hbinary, hbefore⟩ | ⟨c, hc, hfewer⟩
  · exact .behind (h ▸ hbehind)
  · exact .before (h ▸ hbefore) (.inl hbinary)
  · refine .named hc.around hc.ofExpr?_eq hc.direct ?_ (h.trans hc.fnRange_eq.symm)
    -- the call has two arguments at least
    rcases Call.exists_app_of_direct hc.ofExpr?_eq hc.direct hform with ⟨r, fn, args, rfl, hle⟩
    have hnested := (he.nodes hn).1
    rw [Expr.Nested] at hnested
    have hpos := List.length_pos_iff.mpr hnested.2.2.2.1
    have hof : c.isOf Core.basics "not" = call.isOf Core.basics "not" := by
      rw [Call.isOf, Call.isOf, hc.function_eq]
    rw [hof, Bool.eq_false_iff]
    intro htrue
    have hone := hnot htrue
    omega

/-- Elements of a list stand one beside the other; all that is around the list is changed with
it. -/
theorem sides_element {call : Call} (he : e.Nested place) (hlooked : e.form ∈ Rule.formsOfAll)
    (hn : n ∈ e.nodes) (hform : n.form ∈ Rule.formsOfAll)
    (hcall : Call.ofExpr? ctx e = some call) (hrule : f.rule = .cmd ∨ f.rule = .sub)
    (h : Rule.Effect.PointsAtElement call f) : f.Sides ctx e n := by
  rcases h with @⟨l, first, elements, hl, hlist, hfirst, hrange, r, hr, hstart, hlt, hstop⟩
  have hlmem := Call.mem_nodes_of_within hcall (Call.mem_args_of_arg? hl)
  have hlNested := (he.nodes hlmem).1
  have hnNested := (he.nodes hn).1
  rcases Expr.list?_between hlNested hlist with ⟨opening, closing, hopening, hline, hclosing⟩
  have hle : ∀ e : Expr, e.Nested place → e.range.start ≤ e.range.stop := fun _ => Expr.Nested.le
  have hfirstNested := hline.ok_of_mem hfirst
  have hfirstStart := hline.start_le hle hfirst
  have hfirstStop := hline.le_stop hle hfirst
  have hfirstLt := hfirstNested.proper.lt
  have hfront : f.LeavesFront e := by
    cases Call.within_eq_some_iff.mp hcall with
    | paren | var => simp [Expr.form, Rule.formsOfAll] at hlooked
    | app => exact .inr (.inr ⟨rfl, hrule⟩)
    | pipeRight | pipeLeft => exact .inl rfl
  rcases he.mem_or_apart hn hlmem with hin | hin | hapart | hapart
  · -- in the list
    rcases Expr.exists_element_of_mem_nodes hlist hin (ne_of_mem_of_not_mem hform (by decide))
      (ne_of_mem_of_not_mem hform (by decide)) with ⟨x, hx, hnx⟩
    have hnLies := (hline.ok_of_mem hx).nodes hnx
    have hpairs := hline.pairwise hle
    rcases eq_or_apart_of_pairwise hpairs hx hfirst with rfl | hside | hside
    · exact .behind (hrange ▸ hnLies.2.1)
    · exact .before (hrange ▸ hnLies.2.2.trans hside) hfront
    · exact .behind (hrange ▸ hfirstLt.le.trans (hside.trans hnLies.2.1))
  · -- around the list
    rcases hnNested.nodes hin with ⟨-, hlStart, hlStop⟩
    have hover := Range.overlaps_of_lt hlt hnNested.proper.lt
      (show r.start < n.range.stop by order) (show n.range.start < r.stop by order)
    exact .rewritten ⟨r, hr, hover⟩
  · refine .before ?_ hfront
    rw [hrange]
    order
  · refine .behind ?_
    rw [hrange]
    order

theorem setter_start_le_or_stop_le {r : Range} {base : Located String} {setters : List Setter}
    {s : Setter}
    (he : (Expr.update r base setters).Nested place) (hn : n ∈ (Expr.update r base setters).nodes)
    (hne : n ≠ .update r base setters) (hs : s ∈ setters) (h : f.range = s.range) :
    f.range.start ≤ n.range.start ∨ n.range.stop ≤ f.range.start := by
  rw [Expr.nodes_eq] at hn
  rcases List.mem_flatMap.mp ((List.mem_cons.mp hn).resolve_left hne) with ⟨c, hc, hnc⟩
  rcases List.mem_map.mp hc with ⟨x, hx, rfl⟩
  rw [Expr.Nested] at he
  rcases he with ⟨-, -, -, first, last, -, hsetters, -⟩
  rw [Expr.nestedSetters_iff] at hsetters
  have hxNested := hsetters.ok_of_mem hx
  have hxRange := hxNested.range_eq
  have hfield := hxNested.1.le
  have hgap := hxNested.2.1
  rcases hxNested.2.2.nodes hnc with ⟨-, hstart, hstop⟩
  rw [h]
  -- `n` lies in the value of a setter `x`: this one, an earlier one or a later one
  rcases eq_or_apart_of_pairwise (hsetters.pairwise fun _ h => h.proper.le) hx hs with
    rfl | hside | hside
  · rw [hxRange]
    exact .inl (show x.field.range.start ≤ n.range.start by order)
  · rw [hxRange] at hside
    exact .inr (hstop.trans hside)
  · have hle := (hsetters.ok_of_mem hs).proper.le
    rw [hxRange] at hside
    dsimp only at hside
    exact .inl (by order)

namespace Points

/-- Every part that is looked at is on one of the sides. -/
theorem sides (h : f.Points ctx e) (he : e.Nested place) (hlooked : e.form ∈ Rule.formsOfAll)
    (hn : n ∈ e.nodes) (hne : n ≠ e) (hform : n.form ∈ Rule.formsOfAll) : f.Sides ctx e n := by
  have hlies := he.nodes hn
  cases h with
  | front _ h =>
    refine .behind ?_
    rw [h]
    exact hlies.2.1
  | negation hcall _ h =>
    refine .behind ?_
    rw [h, (Call.ofExpr?_fills he hcall).2]
    exact hlies.2.1
  | @operator r name symbol args h =>
    -- the operator before its operands is of a form that no rule looks at
    rcases he.mem_fn_or_behind hn hne with hin | hbehind
    · rw [Expr.nodes_eq] at hin
      rw [List.mem_singleton.mp hin] at hform
      simp [Expr.form, Rule.formsOfAll] at hform
    · rw [Expr.Nested] at he
      exact .behind (h ▸ he.2.2.1.le.trans hbehind)
  | parameter hfn h => exact .behind (parameter_start_le he hn hne hform hfn h)
  | name hcall hnot h => exact sides_name he hlooked hn hne hform hcall hnot h
  | element hcall hrule h => exact sides_element he hlooked hn hform hcall hrule h
  | @operand r symbol left right h =>
    have hleft := he.left_part.1.1
    have hright := he.right_part.1.1
    rw [Expr.nodes_eq] at hn
    rcases List.mem_flatMap.mp ((List.mem_cons.mp hn).resolve_left hne) with ⟨c, hc, hnc⟩
    rcases List.mem_cons.mp hc with rfl | hc
    · rw [Expr.Nested] at he
      exact .before (h ▸ (hleft.nodes hnc).2.2.trans he.2.2.2.1.le) (.inl rfl)
    · rcases List.mem_singleton.mp hc with rfl
      exact .behind (h ▸ (hright.nodes hnc).2.1)
  | @term e t chain hchain ht h hrewrites =>
    have hrange := (Chain.ofExpr?_fills he hchain).2
    have hbinary : e.form = .binary := by
      unfold Chain.ofExpr? at hchain
      split at hchain
      · rfl
      · cases hchain
    -- a part that starts before the term either ends before it or goes with the fix
    rcases le_or_gt t.range.start n.range.start with hle | hlt
    · exact .behind (h ▸ hle)
    · rcases le_or_gt n.range.stop t.range.start with hbefore | hover
      · exact .before (h ▸ hbefore) (.inl hbinary)
      · exact .rewritten (hrewrites _ (hrange ▸ hlies.2.1) hlt hover)
  | setter hs h =>
    rcases setter_start_le_or_stop_le he hn hne hs h with hbehind | hbefore
    · exact .behind hbehind
    · exact .before hbefore (.inr (.inl rfl))

/-- What a finding points at starts before the node ends. -/
theorem start_lt (h : f.Points ctx e) (he : e.Nested place) : f.range.start < e.range.stop := by
  have hself := he.proper.lt
  cases h with
  | front _ h => rwa [h]
  | negation hcall _ h => rwa [h, (Call.ofExpr?_fills he hcall).2]
  | @operator r name symbol args h =>
    have hfn := he.children (c := .operatorFn name symbol) List.mem_cons_self
    rw [h]
    exact hfn.1.proper.lt.trans_le hfn.2.2
  | @parameter r lambdaRange fn body args param more hfn h =>
    have hlambda := (he.children (c := fn) List.mem_cons_self).stripParens
    rw [hfn] at hlambda
    have hbody := hlambda.1.children (c := body) (List.mem_singleton.mpr rfl)
    have hbefore := hlambda.1.param_start_lt
    have hbodyLe := hbody.1.le
    have hbodyStop := hbody.2.2
    have hstop := hlambda.2.2
    rw [h]
    order
  | name hcall _ h =>
    have hstands := (Call.within_stands he hcall).1
    rw [h]
    exact hstands.fn.lt.trans_le hstands.fn_stop_le
  | element hcall _ h =>
    rcases h with @⟨l, first, elements, hl, hlist, hfirst, hrange, -⟩
    have hmem := Expr.mem_nodes_trans (Expr.mem_nodes_of_list? hlist hfirst)
      (Call.mem_nodes_of_within hcall (Call.mem_args_of_arg? hl))
    have hlies := he.nodes hmem
    rw [hrange]
    exact hlies.1.proper.lt.trans_le hlies.2.2
  | operand h =>
    have hright := he.right_part.1
    rw [h]
    exact hright.1.proper.lt.trans_le hright.2.2
  | term hchain ht h =>
    rcases Chain.ofExpr?_fills he hchain with ⟨hfills, hrange⟩
    have hlies := hfills.term_lies ht
    rw [h, ← hrange]
    exact hlies.1.proper.lt.trans_le hlies.2.2
  | setter hs h =>
    rw [Expr.Nested] at he
    rcases he with ⟨-, -, -, first, last, -, hsetters, hlast⟩
    rw [Expr.nestedSetters_iff] at hsetters
    have hstop := hsetters.le_stop (fun _ h => h.proper.le) hs
    have hlt := (hsetters.ok_of_mem hs).proper.lt
    rw [h]
    exact (hlt.trans_le hstop).trans hlast

/-- In a direct call of a function that is not `not`, nothing before the name of the function is
pointed at. -/
theorem fnRange_start_le {c : Call} (h : f.Points ctx n) (hn : n.Nested place)
    (hform : n.form = .app) (hcall : Call.ofExpr? ctx n = some c) (hdirect : c.form = .direct)
    (hnot : c.isOf Core.basics "not" = false) : c.fnRange.start ≤ f.range.start := by
  cases h with
  | front hform' => simp [hform] at hform'
  | negation hcall' hnot' =>
    rw [Option.some.inj (hcall.symm.trans hcall'), hnot'] at hnot
    cases hnot
  | operator => simp [Call.ofExpr?, Call.within] at hcall
  | parameter hfn =>
    rw [Call.ofExpr?, Call.within, ← Call.within_stripParens, hfn] at hcall
    simp [Call.within] at hcall
  | name hcall' _ h =>
    rw [h, Option.some.inj (hcall.symm.trans hcall')]
  | element hcall' _ h =>
    rw [← Option.some.inj (hcall.symm.trans hcall')] at h
    rcases h with @⟨l, first, elements, hl, hlist, hfirst, hrange, -⟩
    -- the list is an argument, and arguments stand behind the function
    have hstands := (Call.within_stands hn hcall).1
    have hle : ∀ e : Expr, e.Nested place → e.range.start ≤ e.range.stop := fun _ => Expr.Nested.le
    have hbehind := hstands.behind
    rw [Call.behind, hdirect] at hbehind
    have hlStart := hbehind.start_le hle (Call.mem_args_of_arg? hl)
    have hlNested := hbehind.ok_of_mem (Call.mem_args_of_arg? hl)
    have hfirstStart := (hlNested.nodes (Expr.mem_nodes_of_list? hlist hfirst)).2.1
    have hfn := hstands.fn.le
    rw [hrange]
    order
  | operand => cases hform
  | term hchain =>
    unfold Chain.ofExpr? at hchain
    split at hchain
    · cases hform
    · cases hchain
  | setter => cases hform

end Points

end Finding

/-! ## Sites in the order of a text -/

namespace Module

variable {text : String} {m : Module} (hm : Module.parse text = .ok m)
include hm

/-- Of two sites, the later one is below the earlier one or behind it. -/
theorem sites_pairwise : m.sites.Pairwise fun x y =>
    y.expr ∈ x.expr.nodes ∧ y.expr ≠ x.expr ∨ x.expr.range.stop ≤ y.expr.range.start := by
  rcases parse_bodies hm with ⟨-, stop, hbodies⟩
  have hnested := (parse_nested hm).2
  suffices h : (m.sites.map Site.expr).Pairwise fun x y =>
      y ∈ x.nodes ∧ y ≠ x ∨ x.range.stop ≤ y.range.start by
    rwa [List.pairwise_map] at h
  rw [map_expr_sites, List.pairwise_flatMap]
  constructor
  · intro v hv
    refine ((hnested v hv).nodes_pairwise.and (hnested v hv).nodup_nodes).imp ?_
    intro x y ⟨hside, hne⟩
    exact hside.imp_left fun hy => ⟨hy, hne.symm⟩
  · have hpairs := hbodies.pairwise fun _ => Expr.Nested.le
    rw [List.pairwise_map] at hpairs
    refine hpairs.imp_of_mem ?_
    intro v v' hv hv' hle x hx y hy
    exact .inr (((hnested v hv).nodes hx).2.2.trans (hle.trans ((hnested v' hv').nodes hy).2.1))

/-- A module has one site for each node. -/
theorem site_eq_of_expr_eq {x y : Site} (hx : x ∈ m.sites) (hy : y ∈ m.sites)
    (heq : x.expr = y.expr) : x = y := by
  have hnodup : (m.sites.map Site.expr).Nodup := by
    rw [List.Nodup, List.pairwise_map]
    refine (sites_pairwise hm).imp_of_mem ?_
    intro x y hx _ hside heq
    rcases hside with ⟨-, hne⟩ | hle
    · exact hne heq.symm
    · rw [← heq] at hle
      exact absurd hle (not_le.mpr (site_nested hm hx).proper.lt)
  exact List.inj_on_of_nodup_map hnodup hx hy heq

/-- Where nothing is bound between two nodes, both have the same variables in scope. -/
theorem scope_eq_of_around {x y : Site} (hx : x ∈ m.sites) (hy : y ∈ m.sites)
    (haround : x.expr.Around [] y.expr) : y.scope = x.scope := by
  rcases haround.exists_site x.scope x.isFree with ⟨free, hwithin⟩
  rcases Module.mem_sites_iff.mp hx with ⟨v, hv, hwithin'⟩
  have hmem : _ ∈ m.sites := Module.mem_sites_iff.mpr
    ⟨v, hv, Site.mem_all_iff.mp (hwithin'.mem_all (Site.mem_all_iff.mpr hwithin))⟩
  rw [site_eq_of_expr_eq hm hy hmem rfl]
  exact List.append_nil _

/-- There, the same expressions are calls, and of the same functions. -/
theorem ofExpr?_eq_of_around {x y : Site} (hx : x ∈ m.sites) (hy : y ∈ m.sites)
    (haround : x.expr.Around [] y.expr) (context : ModuleContext) (e : Expr) :
    Call.ofExpr? ⟨context, y.scope, y.isFree⟩ e = Call.ofExpr? ⟨context, x.scope, x.isFree⟩ e := by
  have hresolve : (⟨context, x.scope, y.isFree⟩ : Context).resolve =
      (⟨context, x.scope, x.isFree⟩ : Context).resolve := rfl
  rw [scope_eq_of_around hm hx hy haround]
  exact Call.within_of_resolve hresolve e.range e

end Module

/-! ## Findings in the order of a text -/

/-- What is reported for two sites: the later site does not begin before the earlier one; the later
finding points before the earlier one exactly if the later site ends there, which it only does as a
part of the earlier site. -/
structure Finding.Follows (x y : Site) (f g : Finding) : Prop where
  start_le : x.expr.range.start ≤ y.expr.range.start
  lt_iff : g.range.start < f.range.start ↔ y.expr.range.stop ≤ f.range.start
  part : y.expr.range.stop ≤ f.range.start → y.expr ∈ x.expr.nodes ∧ f.LeavesFront x.expr

namespace Simplifier

variable {text : String} {m : Module} {c : Config} {s : Simplifier}

/-- Of two findings, the one for the later site follows the other one. -/
theorem follows_of_lt (hm : Module.parse text = .ok m) (hs : Simplifier.ofConfig c = .ok s)
    (knowledge : Knowledge) {i j : Nat} {x y : Site} {f g : Finding}
    (hi : (s.walk m knowledge).Reports i x f) (hj : (s.walk m knowledge).Reports j y g)
    (hij : i < j) : Finding.Follows x y f g := by
  have hw := Simplifier.walk_sound hm hs knowledge
  have hx : x ∈ m.sites := List.mem_of_getElem? hi.site_eq
  have hy : y ∈ m.sites := List.mem_of_getElem? hj.site_eq
  have hxNested := hw.sites x hx
  have hyNested := hw.sites y hy
  rcases Rule.firstFinding_points hw.rules _ hxNested f hi.found with ⟨hfPoints, hxForm⟩
  rcases Rule.firstFinding_points hw.rules _ hyNested g hj.found with ⟨hgPoints, hyForm⟩
  have hfLt := hfPoints.start_lt hxNested
  have hgLt := hgPoints.start_lt hyNested
  have hgStart := (Rule.firstFinding_fits hw.rules _ hyNested g hj.found).range.start_le
  have hxLt := hxNested.proper.lt
  have hyLt := hyNested.proper.lt
  -- if the finding does not point behind the later node, nothing in that node is out of order
  have hinOrder : x.expr.range.start ≤ y.expr.range.start → f.range.start ≤ g.range.start →
      f.range.start < y.expr.range.stop → Finding.Follows x y f g := by
    intro hstart hle hlt
    exact ⟨hstart, ⟨fun h => absurd hle (not_le.mpr h), fun h => absurd hlt (not_lt.mpr h)⟩,
      fun h => absurd hlt (not_lt.mpr h)⟩
  have hpair : y.expr ∈ x.expr.nodes ∧ y.expr ≠ x.expr ∨
      x.expr.range.stop ≤ y.expr.range.start := by
    rcases List.getElem?_eq_some_iff.mp hi.site_eq with ⟨hi', rfl⟩
    rcases List.getElem?_eq_some_iff.mp hj.site_eq with ⟨hj', rfl⟩
    exact List.pairwise_iff_getElem.mp (Module.sites_pairwise hm) i j hi' hj' hij
  rcases hpair with ⟨hmem, hne⟩ | hbehind
  · have hstart := (hxNested.nodes hmem).2.1
    cases hfPoints.sides hxNested hxForm hmem hne hyForm with
    | behind hle => exact hinOrder hstart (by order) (by order)
    | before hbefore hfront =>
      exact ⟨hstart, ⟨fun _ => hbefore, fun _ => hgLt.trans_le hbefore⟩, fun _ => ⟨hmem, hfront⟩⟩
    | rewritten hrewrites =>
      -- such a part is passed over
      exact absurd hrewrites (hj.kept f (hw.mem_before hi hij))
    | @named call haround hcall hdirect hnot hrange =>
      -- both findings point at the name of one function
      have hcall' : Call.ofExpr? ⟨(s.walk m knowledge).context, y.scope, y.isFree⟩ y.expr =
          some call := by
        rw [Module.ofExpr?_eq_of_around hm hx hy haround, hcall]
      have hform : y.expr.form = .app := by
        rcases Call.exists_app_of_direct hcall' hdirect hyForm with ⟨r, fn, args, heq, -⟩
        rw [heq]
        rfl
      have hle := hgPoints.fnRange_start_le hyNested hform hcall' hdirect hnot
      have hstands := (Call.within_stands hyNested hcall').1
      rw [← hrange] at hle
      refine hinOrder hstart hle ?_
      rw [hrange]
      exact hstands.fn.lt.trans_le hstands.fn_stop_le
  · exact hinOrder (by order) (by order) (by order)

end Simplifier

/-- The findings of a module are in the order of their nodes, and each starts in its node. A
finding starts before an earlier one exactly if its node ends before what the earlier one points at;
it is then a part of the earlier node, which is an operation, a record update, or a batch of
effects. So the findings are in the order of what they point at exactly if there is no such
part. -/
theorem findings_follow_nodes {text : String} {m : Module} {c : Config} {s : Simplifier}
    (hm : Module.parse text = .ok m) (hs : Simplifier.ofConfig c = .ok s) (knowledge : Knowledge) :
    let w := s.walk m knowledge
    let findings := s.analyzeModule m knowledge
    (∀ f ∈ findings, ∃ i site, w.Reports i site f ∧
      site.expr.range.start ≤ f.range.start ∧ f.range.start < site.expr.range.stop) ∧
    (findings.Pairwise fun f g =>
      ∀ i j x y, w.Reports i x f → w.Reports j y g → Finding.Follows x y f g) ∧
    ((findings.Pairwise fun f g => f.range.start ≤ g.range.start) ↔
      ∀ i j x y f g, w.Reports i x f → w.Reports j y g → i < j →
        ¬ y.expr.range.stop ≤ f.range.start) := by
  intro w findings
  have hw : w.Sound (SourceText.ofString text).HasPlace := Simplifier.walk_sound hm hs knowledge
  have hall : w.before w.sites.length = findings := s.before_walk m knowledge
  have hreports : ∀ f ∈ findings, ∃ i site, w.Reports i site f := by
    intro f hf
    rw [← hall] at hf
    rcases hw.exists_reports hf with ⟨i, -, site, hi⟩
    exact ⟨i, site, hi⟩
  have horder : findings.Pairwise fun f g =>
      ∀ i j x y, w.Reports i x f → w.Reports j y g → i < j := hall ▸ hw.before_pairwise _
  refine ⟨?_, ?_, ?_, ?_⟩
  · intro f hf
    rcases hreports f hf with ⟨i, site, hi⟩
    have hnested := hw.sites site (List.mem_of_getElem? hi.site_eq)
    have hfits := Rule.firstFinding_fits hw.rules _ hnested f hi.found
    have hpoints := Rule.firstFinding_points hw.rules _ hnested f hi.found
    exact ⟨i, site, hi, hfits.range.start_le, hpoints.1.start_lt hnested⟩
  · apply horder.imp
    intro f g hlt i j x y hi hj
    exact Simplifier.follows_of_lt hm hs knowledge hi hj (hlt i j x y hi hj)
  · intro hsorted i j x y f g hi hj hij hbefore
    rcases hw.exists_later hj with ⟨later, hlater⟩
    rw [← hall, hlater, List.pairwise_append] at hsorted
    have hle := hsorted.2.2 f (hw.mem_before hi hij) g List.mem_cons_self
    have hlt := (Simplifier.follows_of_lt hm hs knowledge hi hj hij).lt_iff.mpr hbefore
    exact absurd hle (not_le.mpr hlt)
  · intro hnone
    apply horder.imp_of_mem
    intro f g hf hg hlt
    rcases hreports f hf with ⟨i, x, hi⟩
    rcases hreports g hg with ⟨j, y, hj⟩
    have hij := hlt i j x y hi hj
    have hfollows := Simplifier.follows_of_lt hm hs knowledge hi hj hij
    rw [← not_lt, hfollows.lt_iff]
    exact hnone i j x y f g hi hj hij

/-- What is piped into a call stands before the name of the function, and is looked at later. -/
def pipedSource : String := "x y = y + 0 |> List.map identity\n"

theorem exists_piped :
    ∃ m s, Module.parse pipedSource = .ok m ∧ Simplifier.ofConfig .default = .ok s ∧
      (s.analyzeModule m ProjectIndex.core.knowledge).map Finding.range =
        [⟨⟨1, 16⟩, ⟨1, 24⟩⟩, ⟨⟨1, 7⟩, ⟨1, 12⟩⟩] := by
  have hranges : passesByDefault pipedSource (fun m s =>
      (s.analyzeModule m ProjectIndex.core.knowledge).map Finding.range =
        [⟨⟨1, 16⟩, ⟨1, 24⟩⟩, ⟨⟨1, 7⟩, ⟨1, 12⟩⟩]) = true := by
    decide +kernel
  rcases exists_of_passesByDefault hranges with ⟨m, s, hm, hs, htest⟩
  exact ⟨m, s, hm, hs, of_decide_eq_true htest⟩

theorem not_pairwise_start_le {findings : List Finding}
    (h : findings.map Finding.range = [⟨⟨1, 16⟩, ⟨1, 24⟩⟩, ⟨⟨1, 7⟩, ⟨1, 12⟩⟩]) :
    ¬ findings.Pairwise fun f g => f.range.start ≤ g.range.start := by
  intro hsorted
  have hranges : (findings.map Finding.range).Pairwise fun a b => a.start ≤ b.start :=
    List.pairwise_map.mpr hsorted
  rw [h] at hranges
  exact absurd hranges (by decide)

/-- The addition that is piped into a call ends before the name of the function, where the finding
for the call points. -/
theorem findings_follow_nodes_piped :
    ∃ m s, Module.parse pipedSource = .ok m ∧ Simplifier.ofConfig .default = .ok s ∧
      let w := s.walk m ProjectIndex.core.knowledge
      (s.analyzeModule m ProjectIndex.core.knowledge).length = 2 ∧
        ∃ i j x y f g, w.Reports i x f ∧ w.Reports j y g ∧ i < j ∧
          y.expr.range.stop ≤ f.range.start := by
  rcases exists_piped with ⟨m, s, hm, hs, hranges⟩
  rcases findings_follow_nodes hm hs ProjectIndex.core.knowledge with ⟨-, -, hiff⟩
  have hnot := mt hiff.mpr (not_pairwise_start_le hranges)
  push Not at hnot
  refine ⟨m, s, hm, hs, ?_, hnot⟩
  simpa using congrArg List.length hranges

/-- The call is reported first, at the name of its function; the addition that is piped into it is
reported next, and stands before that name. -/
theorem findings_out_of_order :
    ∃ m s, Module.parse pipedSource = .ok m ∧ Simplifier.ofConfig .default = .ok s ∧
      (s.analyzeModule m ProjectIndex.core.knowledge).map Finding.range =
        [⟨⟨1, 16⟩, ⟨1, 24⟩⟩, ⟨⟨1, 7⟩, ⟨1, 12⟩⟩] ∧
      ¬ (s.analyzeModule m ProjectIndex.core.knowledge).Pairwise fun f g =>
        f.range.start ≤ g.range.start := by
  rcases exists_piped with ⟨m, s, hm, hs, hranges⟩
  exact ⟨m, s, hm, hs, hranges, not_pairwise_start_le hranges⟩

end Terse
