import Terse.Proofs.Rule.Collection
import Terse.Proofs.Rule.Effect
import Terse.Proofs.Rule.List
import Terse.Proofs.Rule.String
import Terse.Proofs.Rule.Wrapped
import Terse.Proofs.View.Spine
import Terse.Rule.Catalog

/-!
# Calls by the number of their arguments

What a family finds in a call depends on the arguments that the function takes, and on no others.
All but a few of its fixes rewrite the call as a whole; so they treat a call with further arguments
as if it had none, and a call with fewer arguments as a function.
-/

namespace Terse

open Rule

/-- The families of calls. -/
def Family.all : List Family :=
  [Lists.family, Strings.family, Wrapped.maybeFamily, Wrapped.resultFamily, Collection.setFamily,
   Collection.dictFamily, Effect.cmdFamily, Effect.subFamily]

/-- The rule of a family checks calls with the family, also if it checks operators as well. -/
theorem Family.check_ofCode {family : Family} (h : family ∈ all) {ctx : Context} {e : Expr}
    {call : Call} (hcall : Call.ofExpr? ctx e = some call) :
    (ofCode family.library.code).check ctx e = family.checkCall ctx call := by
  have hcheck : family.check ctx e = family.checkCall ctx call := by
    rw [Family.check, hcall, Option.bind_some]
  have hpipe : ∀ {w symbol left right}, e = .binary w symbol left right →
      symbol = "|>" ∨ symbol = "<|" := by
    rintro w symbol left right rfl
    exact (Call.within_pipe hcall).1
  simp only [all, List.mem_cons, List.not_mem_nil, or_false] at h
  rcases h with rfl | rfl | rfl | rfl | rfl | rfl | rfl | rfl
  · rw [← hcheck]
    change Lists.check ctx e = _
    unfold Lists.check
    split
    · rcases hpipe rfl with rfl | rfl <;> rfl
    · rfl
  · rw [← hcheck]
    change Strings.check ctx e = _
    unfold Strings.check
    split
    · rcases hpipe rfl with rfl | rfl <;> rfl
    · rfl
  all_goals exact hcheck

namespace Call

/-- The call is of one of the few functions whose calls are rewritten inside, and meets its
condition. -/
def RewrittenInside (ctx : Context) (call : Call) : Prop :=
  if call.function = ⟨Core.list, "concat"⟩ then Lists.JoinsSome call
  else if call.function = ⟨Core.list, "concatMap"⟩ then Lists.JoinsWithIdentity ctx call
  else if call.function = ⟨Core.string, "join"⟩ then Strings.JoinsWithNothing call
  else if call.function = ⟨Core.cmd, "batch"⟩ ∨ call.function = ⟨Core.sub, "batch"⟩ then
    Effect.BatchesSome call.function.path ctx call
  else False

/-- The call intersects the empty set with a set that it does not have yet. -/
def FinishesEarly (ctx : Context) (call : Call) : Prop :=
  call.function = ⟨Core.set, "intersect"⟩ ∧ Collection.HasOnlyEmpty Core.set ctx call

/-- The functions whose calls are rewritten inside. -/
def insideFunctions : List ResolvedName :=
  [⟨Core.list, "concat"⟩, ⟨Core.list, "concatMap"⟩, ⟨Core.string, "join"⟩, ⟨Core.cmd, "batch"⟩,
   ⟨Core.sub, "batch"⟩]

theorem not_rewrittenInside {ctx : Context} {call : Call}
    (h : call.function ∉ insideFunctions) : ¬ call.RewrittenInside ctx := by
  simp only [insideFunctions, List.mem_cons, List.not_mem_nil, or_false, not_or] at h
  simp [RewrittenInside, h]

theorem not_finishesEarly {ctx : Context} {call : Call}
    (h : call.function ≠ ⟨Core.set, "intersect"⟩) : ¬ call.FinishesEarly ctx :=
  fun hearly => h hearly.1

/-- What becomes of a call of a function that takes `n` arguments. -/
inductive Treated (lib : Library) (ctx : Context) (n : Nat) (call : Call) (edits : List Edit) :
    Prop where
  | whole (hinside : ¬ call.RewrittenInside ctx) (hearly : ¬ call.FinishesEarly ctx)
    (h : FixedWhole ctx n call edits)
  | inside (hinside : call.RewrittenInside ctx) (hearly : ¬ call.FinishesEarly ctx)
    (h : FixedInside lib ctx n call edits)
  | early (hinside : ¬ call.RewrittenInside ctx) (hearly : call.FinishesEarly ctx)
    (h : edits = [ctx.replaceBy call.range (ctx.qualify Core.set "empty") true])

end Call

theorem CallCheck.TakesOr.treated {n : Nat} {cond : Library → Context → Call → Prop}
    {check : CallCheck} (h : check.TakesOr n cond) {lib : Library} {ctx : Context} {call : Call}
    (hcond : call.RewrittenInside ctx ↔ cond lib ctx call) (hearly : ¬ call.FinishesEarly ctx) :
    Found (fun f => call.Treated lib ctx n f.edits) (check lib ctx call) := by
  by_cases hinside : call.RewrittenInside ctx
  · exact (h.inside lib ctx call (hcond.mp hinside)).imp fun f => .inside hinside hearly
  · exact (h.whole lib ctx call fun h => hinside (hcond.mpr h)).imp fun f => .whole hinside hearly

theorem CallCheck.Takes.takesOr {n : Nat} {check : CallCheck} (h : check.Takes n) :
    check.TakesOr n fun _ _ _ => False :=
  ⟨h.surplus, fun _ _ _ => False.elim, fun lib ctx call _ => h.whole lib ctx call⟩

/-- The check treats calls of a function by the number of arguments that the function takes. -/
structure CallCheck.Counts (check : CallCheck) (lib : Library) (ctx : Context) (call : Call)
    (n : Nat) : Prop where
  arity : Core.arity? call.function = some n
  surplus : check.IgnoresSurplus n
  treated : Found (fun f => call.Treated lib ctx n f.edits) (check lib ctx call)

namespace Family

variable {family : Family} {lib : Library} {ctx : Context} {call : Call} {name : String}
  {check : CallCheck}

/-- A function of a family that is only rewritten as a whole. -/
theorem counts_of_takes (h : ∃ n, Core.arity? ⟨lib.path, name⟩ = some n ∧ check.Takes n)
    (hfunction : call.function = ⟨lib.path, name⟩)
    (hinside : call.function ∉ Call.insideFunctions)
    (hearly : call.function ≠ ⟨Core.set, "intersect"⟩) : ∃ n, check.Counts lib ctx call n := by
  rcases h with ⟨n, harity, htakes⟩
  rw [← hfunction] at harity
  exact ⟨n, harity, htakes.surplus, htakes.takesOr.treated
    (iff_false_intro (Call.not_rewrittenInside hinside)) (Call.not_finishesEarly hearly)⟩

/-- A function that is rewritten inside as well. -/
theorem counts_of_takesOr {n : Nat} {cond : Library → Context → Call → Prop}
    (h : check.TakesOr n cond) (harity : Core.arity? call.function = some n)
    (hcond : call.RewrittenInside ctx ↔ cond lib ctx call)
    (hearly : call.function ≠ ⟨Core.set, "intersect"⟩) : ∃ n, check.Counts lib ctx call n :=
  ⟨n, harity, h.surplus, h.treated hcond (Call.not_finishesEarly hearly)⟩

theorem lists_counts (hfunction : call.function = ⟨Core.list, name⟩)
    (hlookup : Lists.family.checks.lookup name = some check) :
    ∃ n, check.Counts Lists.family.library ctx call n := by
  have hearly : call.function ≠ ⟨Core.set, "intersect"⟩ := by
    simp [hfunction, Core.list, Core.set]
  by_cases hname : name ∈ ["concat", "concatMap"]
  · simp only [List.mem_cons, List.not_mem_nil, or_false] at hname
    rcases hname with rfl | rfl <;> obtain rfl := Option.some.inj hlookup
    · refine counts_of_takesOr Lists.concat_takes (by rw [hfunction]; rfl) ?_ hearly
      rw [Call.RewrittenInside, hfunction]
      rfl
    · refine counts_of_takesOr Lists.concatMap_takes (by rw [hfunction]; rfl) ?_ hearly
      rw [Call.RewrittenInside, hfunction]
      rfl
  · refine counts_of_takes (Lists.family_takes _ (mem_of_lookup hlookup) hname) hfunction ?_ hearly
    simpa [Call.insideFunctions, hfunction, Core.list, Core.string, Core.cmd, Core.sub] using hname

theorem strings_counts (hfunction : call.function = ⟨Core.string, name⟩)
    (hlookup : Strings.family.checks.lookup name = some check) :
    ∃ n, check.Counts Strings.family.library ctx call n := by
  have hearly : call.function ≠ ⟨Core.set, "intersect"⟩ := by
    simp [hfunction, Core.string, Core.set]
  by_cases hname : name ∈ ["join"]
  · obtain rfl := List.mem_singleton.mp hname
    obtain rfl := Option.some.inj hlookup
    refine counts_of_takesOr Strings.join_takes (by rw [hfunction]; rfl) ?_ hearly
    rw [Call.RewrittenInside, hfunction]
    rfl
  · refine counts_of_takes (Strings.family_takes _ (mem_of_lookup hlookup) hname) hfunction ?_
      hearly
    simpa [Call.insideFunctions, hfunction, Core.list, Core.string, Core.cmd, Core.sub] using hname

theorem set_counts (hfunction : call.function = ⟨Core.set, name⟩)
    (hlookup : Collection.setFamily.checks.lookup name = some check) :
    ∃ n, check.Counts Collection.setFamily.library ctx call n := by
  have hinside : call.function ∉ Call.insideFunctions := by
    simp [Call.insideFunctions, hfunction, Core.list, Core.set, Core.string, Core.cmd, Core.sub]
  by_cases hname : name ∈ ["intersect"]
  · obtain rfl := List.mem_singleton.mp hname
    obtain rfl := Option.some.inj hlookup
    refine ⟨2, by rw [hfunction]; rfl, Collection.intersect_surplus, ?_⟩
    have hinside : ¬ call.RewrittenInside ctx := Call.not_rewrittenInside hinside
    by_cases hempty : Collection.HasOnlyEmpty Core.set ctx call
    · exact (Collection.intersect_early hempty).imp fun f => .early hinside ⟨hfunction, hempty⟩
    · exact (Collection.intersect_whole hempty).imp fun f => .whole hinside fun h => hempty h.2
  · refine counts_of_takes (Collection.setFamily_takes _ (mem_of_lookup hlookup) hname) hfunction
      hinside ?_
    simpa [hfunction] using hname

theorem effect_counts (hpath : lib.path = Core.cmd ∨ lib.path = Core.sub)
    (hfunction : call.function = ⟨lib.path, name⟩)
    (hlookup : Effect.cmdFamily.checks.lookup name = some check) :
    ∃ n, check.Counts lib ctx call n := by
  have hearly : call.function ≠ ⟨Core.set, "intersect"⟩ := by
    rcases hpath with hpath | hpath <;> simp [hfunction, hpath, Core.cmd, Core.sub, Core.set]
  by_cases hname : name ∈ ["batch"]
  · obtain rfl := List.mem_singleton.mp hname
    obtain rfl := Option.some.inj hlookup
    refine counts_of_takesOr Effect.batch_takes ?_ ?_ hearly
    · rw [hfunction]
      rcases hpath with hpath | hpath <;> rw [hpath] <;> rfl
    · rw [Call.RewrittenInside, hfunction]
      rcases hpath with hpath | hpath <;> rw [hpath] <;> rfl
  · refine counts_of_takes (Effect.family_takes hpath _ (mem_of_lookup hlookup) hname) hfunction ?_
      hearly
    rcases hpath with hpath | hpath <;>
      simpa [Call.insideFunctions, hfunction, hpath, Core.list, Core.string, Core.cmd, Core.sub]
        using hname

/-- No function of these modules is rewritten inside or finishes early. -/
theorem plain_path {path : ModuleName} (hpath : path ∈ [Core.maybe, Core.result, Core.dict])
    (hfunction : call.function = ⟨path, name⟩) :
    call.function ∉ Call.insideFunctions ∧ call.function ≠ ⟨Core.set, "intersect"⟩ := by
  simp only [List.mem_cons, List.not_mem_nil, or_false] at hpath
  rcases hpath with rfl | rfl | rfl <;>
    simp [Call.insideFunctions, hfunction, Core.maybe, Core.result, Core.dict, Core.list,
      Core.string, Core.cmd, Core.sub, Core.set]

theorem exists_counts (hfamily : family ∈ all)
    (hfunction : call.function = ⟨family.library.path, name⟩)
    (hlookup : family.checks.lookup name = some check) :
    ∃ n, check.Counts family.library ctx call n := by
  simp only [all, List.mem_cons, List.not_mem_nil, or_false] at hfamily
  rcases hfamily with rfl | rfl | rfl | rfl | rfl | rfl | rfl | rfl
  · exact lists_counts hfunction hlookup
  · exact strings_counts hfunction hlookup
  · rcases plain_path (by decide) hfunction with ⟨hinside, hearly⟩
    exact counts_of_takes (Wrapped.maybeFamily_takes _ (mem_of_lookup hlookup)) hfunction hinside
      hearly
  · rcases plain_path (by decide) hfunction with ⟨hinside, hearly⟩
    exact counts_of_takes (Wrapped.resultFamily_takes _ (mem_of_lookup hlookup)) hfunction hinside
      hearly
  · exact set_counts hfunction hlookup
  · rcases plain_path (by decide) hfunction with ⟨hinside, hearly⟩
    exact counts_of_takes (Collection.dictFamily_takes _ (mem_of_lookup hlookup)) hfunction hinside
      hearly
  · exact effect_counts (.inl rfl) hfunction hlookup
  · exact effect_counts (.inr rfl) hfunction hlookup

/-- What a family finds in a call is counted by the arguments of the function. -/
theorem exists_treated (hfamily : family ∈ all) {f : Finding}
    (hf : family.checkCall ctx call = some f) :
    ∃ n, Core.arity? call.function = some n ∧
      (n ≤ call.args.length → family.checkCall ctx (call.cut n) = some f) ∧
      call.Treated family.library ctx n f.edits := by
  rcases checkCall_eq_some_iff.mp hf with ⟨hpath, check, hlookup, hcheck⟩
  have hfunction : call.function = ⟨family.library.path, call.function.name⟩ := by
    rw [← hpath]
  rcases exists_counts hfamily hfunction hlookup with ⟨n, hcounts⟩
  refine ⟨n, hcounts.arity, fun hn => ?_, hcounts.treated f hcheck⟩
  rw [← hcounts.surplus family.library ctx call hn] at hcheck
  exact checkCall_eq_some_iff.mpr ⟨hpath, check, hlookup, hcheck⟩

end Family

/-! ## Missing arguments -/

namespace Call

variable {ctx : Context} {call : Call}

/-- A fix that leaves a function where the call was. -/
inductive LeavesFunction (ctx : Context) (call : Call) : List Edit → Prop where
  | identity :
    LeavesFunction ctx call [ctx.replaceBy call.range (ctx.qualify Core.basics "identity") true]
  | always (value : String) :
    LeavesFunction ctx call
      [ctx.replaceBy call.range (ctx.qualify Core.basics "always" ++ " " ++ value) false]
  /-- The function and its first argument become another function, which lacks arguments too. -/
  | renamed {function : ResolvedName} {n : Nat} {a : Expr} {more : List Expr}
    (harity : Core.arity? function = some n) (hargs : call.args = a :: more)
    (hlt : more.length < n) :
    LeavesFunction ctx call
      [.replace ⟨call.fnRange.start, a.range.stop⟩ (ctx.qualify function.path function.name)]

/-- A function of two arguments that is rewritten inside has a `concat` beside it. -/
theorem arity_concat (hinside : call.RewrittenInside ctx)
    (harity : Core.arity? call.function = some 2) :
    Core.arity? ⟨call.function.path, "concat"⟩ = some 1 := by
  unfold RewrittenInside at hinside
  split at hinside
  · rename_i hfunction
    rw [hfunction]
    rfl
  split at hinside
  · rename_i hfunction
    rw [hfunction]
    rfl
  split at hinside
  · rename_i hfunction
    rw [hfunction]
    rfl
  split at hinside
  · rename_i hfunction
    rcases hfunction with hfunction | hfunction <;> rw [hfunction] at harity <;> cases harity
  · exact hinside.elim

/-- A call that lacks arguments and is rewritten as a whole stays a function. -/
theorem FixedWhole.leavesFunction {n : Nat} {edits : List Edit} (h : FixedWhole ctx n call edits)
    (hlt : call.args.length < n) : call.LeavesFunction ctx edits := by
  cases h with
  | value h | part h | joined h => exact absurd hlt (Nat.not_lt.mpr h)
  | identity _ => exact .identity
  | always _ value => exact .always value

/-- A call that lacks arguments and is rewritten inside has one of two, and its function becomes
`concat`. -/
theorem FixedInside.leavesFunction {lib : Library} {n : Nat} {edits : List Edit}
    (h : FixedInside lib ctx n call edits) (hpath : call.function.path = lib.path)
    (hinside : call.RewrittenInside ctx) (harity : Core.arity? call.function = some n)
    (hlt : call.args.length < n) : call.LeavesFunction ctx edits := by
  cases h with
  | elements _ h => exact absurd hlt (Nat.not_lt.mpr h)
  | @renamed h a ha =>
    subst h
    have hconcat := arity_concat hinside harity
    rw [hpath] at hconcat
    rcases List.getElem?_eq_some_iff.mp ha with ⟨hpos, rfl⟩
    have hargs := List.eq_getElem_of_length_eq_one call.args (by omega)
    exact .renamed hconcat hargs Nat.one_pos

end Call

/-! ## Surplus arguments -/

namespace Call

variable {place : Location → Prop} {ctx : Context} {e : Expr} {call : Call} {n : Nat}
  (he : e.Nested place) (hcall : ofExpr? ctx e = some call)
include he hcall

/-- An argument that the function takes stands behind the function, and ends before any surplus
one, unless that one is piped into the call from before. -/
theorem surplus_sides {a b : Expr} (ha : a ∈ call.args.take n) (hb : b ∈ call.args.drop n) :
    call.fnRange.stop ≤ a.range.start ∧
      (a.range.stop ≤ b.range.start ∨ b.range.stop ≤ call.fnRange.start) := by
  have hfills := (ofExpr?_fills he hcall).1
  have happend := (List.take_append_drop n call.args).symm
  rcases behind_of_append happend (List.ne_nil_of_mem hb) with ⟨rest, hbehind⟩
  have hpairs := within_args_pairwise he hcall
  rw [happend, List.pairwise_append] at hpairs
  refine ⟨(hfills.behind_lies ?_).2.1, hpairs.2.2 a ha b hb⟩
  rw [hbehind]
  exact List.mem_append_left rest ha

/-- A fix of the whole call rewrites each surplus argument. -/
theorem FixedWhole.covers {edits : List Edit} (h : FixedWhole ctx n call edits)
    (hn : n ≤ call.args.length) {b : Expr} (hb : b ∈ call.args.drop n) :
    ∃ edit ∈ edits, edit.range.contains b.range = true := by
  simp only [Range.contains_iff]
  have hfills := (ofExpr?_fills he hcall).1
  have hblies := hfills.arg_lies (List.mem_of_mem_drop hb)
  have hblt := hblies.1.proper.lt
  have hfnLt := hfills.stands.fn.lt
  -- all the call keeps is part of an argument that the function takes
  have hbeside : ∀ {a x : Expr}, a ∈ call.args.take n → x.Lies place a.range.start a.range.stop →
      b.range.stop ≤ x.range.start ∨ x.range.stop ≤ b.range.start := by
    intro a x ha hx
    have hstart := hx.2.1
    rcases surplus_sides he hcall ha hb with ⟨hfn, hside | hside⟩
    · exact .inr (hx.2.2.trans hside)
    · exact .inl (by order)
  cases h with
  | value _ text atomic => exact ⟨_, List.mem_singleton.mpr rfl, hblies.2⟩
  | @part _ a kept ha hkept =>
    have hnested := (hfills.arg_lies (List.mem_of_mem_take ha)).1
    rcases hbeside ha (hnested.nodes hkept).stripParens with hside | hside
    · have hlt := hblies.2.1.trans_lt (hblt.trans_le hside)
      rcases ctx.exists_keepOnly_before hlt with ⟨edit, hedit, hrange⟩
      exact ⟨edit, hedit, by rw [hrange]; exact ⟨hblies.2.1, hside⟩⟩
    · have hlt := hside.trans_lt (hblt.trans_le hblies.2.2)
      rcases ctx.exists_keepOnly_after hlt with ⟨edit, hedit, hrange⟩
      exact ⟨edit, hedit, by rw [hrange]; exact ⟨hside, hblies.2.2⟩⟩
  | @joined _ a first last elements ha hlist hfirst hlast =>
    have hnested := (hfills.arg_lies (List.mem_of_mem_take ha)).1
    have hlies : ∀ x ∈ elements, x.Lies place a.range.start a.range.stop := fun x hx =>
      hnested.nodes (Expr.mem_nodes_of_list? hlist hx)
    rcases hbeside ha ⟨hnested, le_rfl, le_rfl⟩ with hside | hside
    · have hstop := hside.trans (hlies first hfirst).2.1
      exact ⟨_, List.mem_cons_self, hblies.2.1, hstop⟩
    · have hstart := (hlies last hlast).2.2.trans hside
      exact ⟨_, List.mem_cons_of_mem _ List.mem_cons_self, hstart, hblies.2.2⟩
  | identity h => exact absurd h (by omega)
  | always h => exact absurd h (by omega)

/-- A fix inside the call rewrites nothing outside the function and its first argument. -/
theorem FixedInside.within {lib : Library} {edits : List Edit}
    (h : FixedInside lib ctx n call edits) (hn : n < call.args.length) :
    ∃ a, call.arg? 0 = some a ∧ a ∈ call.args.take n ∧ ∀ edit ∈ edits,
      call.fnRange.start ≤ edit.range.start ∧ edit.range.stop ≤ a.range.stop := by
  cases h with
  | @elements h _ a elements edits ha hlist hedits =>
    have hmem := mem_take_of_arg? ha h
    rcases List.exists_mem_of_ne_nil (call.args.drop n) (by simpa using hn) with ⟨b, hb⟩
    have hfn := (surplus_sides he hcall hmem hb).1
    have hfills := (ofExpr?_fills he hcall).1
    have hfnLt := hfills.stands.fn.lt
    have hnested := (hfills.arg_lies (List.mem_of_mem_take hmem)).1
    rcases Expr.list?_between hnested hlist with ⟨first, last, hfirst, hline, hlast⟩
    have hbetween := hedits place first last hline.between
    have hle : ∀ edit : Edit, edit.range.Proper place → edit.range.start ≤ edit.range.stop :=
      fun _ h => h.le
    refine ⟨a, ha, hmem, fun edit hedit => ⟨?_, ?_⟩⟩
    · have hstart := hbetween.start_le hle hedit
      order
    · exact (hbetween.le_stop hle hedit).trans hlast.le
  | @renamed h a ha =>
    refine ⟨a, ha, mem_take_of_arg? ha (by omega), fun edit hedit => ?_⟩
    rcases List.mem_singleton.mp hedit with rfl
    exact ⟨le_rfl, le_rfl⟩

end Call

end Terse
