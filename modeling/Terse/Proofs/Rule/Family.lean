import Mathlib.Tactic.Order
import Terse.Proofs.Rule.Finding
import Terse.Proofs.View.Call
import Terse.Rule.Family

/-!
# Families of calls fit

What a check of calls finds fits the range of the call, whichever way the call is written. The
fixes that the families share replace the call, keep a part of it, or join lists inside it.
-/

namespace Terse

variable {place : Location → Prop}

theorem exists_cons_cons {α : Type} {xs : List α} (h : 2 ≤ xs.length) :
    ∃ a b rest, xs = a :: b :: rest := by
  rcases xs with _ | ⟨a, _ | ⟨b, rest⟩⟩
  · simp at h
  · simp at h
  · exact ⟨a, b, rest, rfl⟩

/-- Whatever the check finds fits the call. -/
def CallCheck.Fits (place : Location → Prop) (check : CallCheck) : Prop :=
  ∀ lib ctx call, call.Fills place → Finds place call.range (check lib ctx call)

/-- Whatever the rule finds at a nested node fits the node. -/
def Rule.Fits (place : Location → Prop) (rule : Rule) : Prop :=
  ∀ ctx e, e.Nested place → Finds place e.range (rule.check ctx e)

/-! ## Fixes of calls -/

namespace Library

variable {call : Call} {message : String} (h : call.Fills place) (lib : Library) (ctx : Context)
include h

theorem finding_fits {edits : List Edit} (hfix : FixFits place call.range edits) :
    (lib.finding call message edits).Fits place call.range :=
  fits_fixing h.fn_fits hfix

/-- Replacing a call as a whole fits into it. -/
theorem replaceCall_fits {text : String} {atomic : Bool} :
    (lib.replaceCall ctx call message text atomic).Fits place call.range :=
  finding_fits h lib (ctx.replaceBy_fits h.range text atomic)

/-- Keeping a part of a call fits into it. -/
theorem keepArg_fits {kept : Expr} (hkept : kept.PartOf place call.range) :
    (lib.keepArg ctx call message kept).Fits place call.range :=
  finding_fits h lib (ctx.keepOnly_fits h.range hkept.stripParens)

/-- So does keeping an argument, or writing the identity where there is none. -/
theorem keepArgOrIdentity_fits {index : Nat} :
    (lib.keepArgOrIdentity ctx call message index).Fits place call.range := by
  unfold keepArgOrIdentity
  split
  · rename_i harg
    exact keepArg_fits h lib ctx (h.arg_part (Call.mem_args_of_arg? harg))
  · exact replaceCall_fits h lib ctx

/-- So does writing a value, or a function that always gives it. -/
theorem valueOrAlways_fits {index : Nat} {value : String} {atomic : Bool} :
    (lib.valueOrAlways ctx call message index value atomic).Fits place call.range := by
  unfold valueOrAlways
  split
  · exact replaceCall_fits h lib ctx
  · exact replaceCall_fits h lib ctx

end Library

/-! ## Families -/

namespace Family

section

variable {family : Family} {ctx : Context} {call : Call}

/-- A family finds what the check of the function finds, in calls of its module only. -/
theorem checkCall_eq_some_iff {f : Finding} : family.checkCall ctx call = some f ↔
    call.function.path = family.library.path ∧
      ∃ check, family.checks.lookup call.function.name = some check ∧
        check family.library ctx call = some f := by
  unfold checkCall
  split
  · rename_i hpath
    cases family.checks.lookup call.function.name <;> simp [hpath]
  · rename_i hpath
    simp [hpath]

theorem mem_of_lookup {name : String} {check : CallCheck}
    (h : family.checks.lookup name = some check) : (name, check) ∈ family.checks := by
  rcases List.lookup_eq_some_iff.mp h with ⟨before, rest, heq, -⟩
  rw [heq]
  simp

end

variable {family : Family} (h : ∀ c ∈ family.checks, CallCheck.Fits place c.2)
include h

/-- What a family finds at a node fits, if its checks find what fits into calls. -/
theorem check_fits (ctx : Context) {e : Expr} (he : e.Nested place) :
    Finds place e.range (family.check ctx e) := by
  intro f hf
  rcases Option.bind_eq_some_iff.mp hf with ⟨call, hcall, hf⟩
  rcases Call.ofExpr?_fills he hcall with ⟨hfills, hrange⟩
  rcases checkCall_eq_some_iff.mp hf with ⟨-, check, hlookup, hf⟩
  rw [← hrange]
  exact h _ (mem_of_lookup hlookup) family.library ctx call hfills f hf

/-- A rule fits when all checks of its family do. -/
theorem rule_fits : family.rule.Fits place := by
  intro ctx e he
  exact check_fits h ctx he

end Family

/-! ## Elements of lists -/

namespace Call.Fills

variable {call : Call} (h : call.Fills place)
include h

/-- The elements of a list that is an argument stand strictly inside the call. -/
theorem elements_between {index : Nat} {elements : List Expr}
    (helements : (call.arg? index).bind Expr.list? = some elements) :
    ∃ first last, call.range.start < first ∧
      InLine Expr.range (Expr.Nested place) first elements last ∧ last < call.range.stop := by
  rcases Option.bind_eq_some_iff.mp helements with ⟨a, ha, hlist⟩
  rcases h.arg_lies (mem_args_of_arg? ha) with ⟨hnested, hstart, hstop⟩
  rcases Expr.list?_between hnested hlist with ⟨first, last, hfirst, hline, hlast⟩
  exact ⟨first, last, hstart.trans_lt hfirst, hline, hlast.trans_le hstop⟩

/-- The elements of a list argument stand inside the call. -/
theorem element_part {index : Nat} {elements : List Expr}
    (helements : (call.arg? index).bind Expr.list? = some elements) {e : Expr}
    (he : e ∈ elements) : e.PartOf place call.range := by
  rcases h.elements_between helements with ⟨first, last, hfirst, hline, hlast⟩
  have hstart := hline.start_le (fun _ => Expr.Nested.le) he
  have hstop := hline.le_stop (fun _ => Expr.Nested.le) he
  exact ⟨⟨hline.ok_of_mem he, hfirst.le.trans hstart, hstop.trans hlast.le⟩,
    .inl (hfirst.trans_le hstart)⟩

end Call.Fills

/-! ## Joining lists -/

namespace Context

/-- The elements of a plain list stand inside it; the first and the last may be the same. -/
theorem plain_ends {e : Expr} (he : e.Nested place) (h : isPlainList e = true) :
    ∃ first last, e.list?.bind List.head? = some first ∧ e.list?.bind List.getLast? = some last ∧
      first.Nested place ∧ last.Nested place ∧ e.range.start < first.range.start ∧
      first.range.start < last.range.stop ∧ last.range.stop < e.range.stop := by
  unfold isPlainList at h
  split at h
  · rename_i r item items
    rw [Expr.Nested] at he
    rcases he with ⟨hr, inner, outer, hinner, hitems, houter⟩
    rw [Expr.nestedAll_iff] at hitems
    have hend := List.getLast?_cons (a := item) (l := items)
    have hlast := List.mem_of_getLast? hend
    have hok := hitems.ok_of_mem hlast
    have hle := hitems.between.head_start_le (fun _ => Expr.Nested.le) hlast
    have hstop := hitems.le_stop (fun _ => Expr.Nested.le) hlast
    have hlt := hok.proper.lt
    exact ⟨item, _, rfl, hend, hitems.2.1, hok, hinner.trans_le hitems.1, hle.trans_lt hlt,
      hstop.trans_lt houter⟩
  · cases h

/-- The edits that join plain lists stand in a line, from the last element of the first list on. -/
theorem joinLists_between {first last : Expr} {rest : List Expr} {start stop : Location}
    (hlast : first.list?.bind List.getLast? = some last) (hnested : last.Nested place)
    (hstart : start ≤ last.range.stop) (hinside : last.range.stop < first.range.stop)
    (hline : Between Expr.range (Expr.Nested place) first.range.stop rest stop)
    (hplain : ∀ e ∈ rest, isPlainList e = true) :
    Between Edit.range (fun e => e.range.Proper place) start (joinLists (first :: rest)) stop ∧
      (rest ≠ [] → joinLists (first :: rest) ≠ []) := by
  induction rest generalizing first last start with
  | nil =>
    rw [between_nil] at hline
    refine ⟨?_, by simp⟩
    rw [joinLists, between_nil]
    · order
    · simp
  | cons next rest ih =>
    rcases between_cons.mp hline with ⟨hgap, hnext, hline⟩
    rw [List.forall_mem_cons] at hplain
    obtain ⟨item, final, hhead, hend, hitem, hfinal, hopen, hspan, hclose⟩ :=
      plain_ends hnext hplain.1
    have hrest := ih hend hfinal hspan.le hclose hline hplain.2
    rw [joinLists, hlast, hhead]
    refine ⟨?_, by simp⟩
    rw [List.singleton_append, between_cons]
    exact ⟨hstart, ⟨show last.range.stop < item.range.start by order, hnested.proper.stop,
      hitem.proper.start⟩, hrest.1⟩

/-- Merging two lists or more changes only what stands between the first and the last one. -/
theorem mergeLists_between (ctx : Context) {lists : List Expr} {start stop : Location}
    (hline : Between Expr.range (Expr.Nested place) start lists stop) (htwo : 2 ≤ lists.length) :
    Between Edit.range (fun e => e.range.Proper place) start (ctx.mergeLists lists) stop ∧
      ctx.mergeLists lists ≠ [] := by
  rcases exists_cons_cons htwo with ⟨first, second, rest, rfl⟩
  rcases between_cons.mp hline with ⟨hstart, hfirst, hrest⟩
  obtain ⟨last, hend⟩ : ∃ last, (first :: second :: rest).getLast? = some last :=
    ⟨_, List.getLast?_cons⟩
  unfold mergeLists
  rw [List.head?_cons, hend]
  dsimp only
  split
  · rename_i hall
    rw [List.all_eq_true] at hall
    have hplain := hall first List.mem_cons_self
    obtain ⟨item, final, -, hfinalEq, -, hfinal, hopen, hspan, hclose⟩ :=
      plain_ends hfirst hplain
    have hjoin := joinLists_between hfinalEq hfinal (show start ≤ final.range.stop by order)
      hclose hrest fun e he => hall e (List.mem_cons_of_mem _ he)
    exact ⟨hjoin.1, hjoin.2 (by simp)⟩
  · -- the lists are written anew
    have hmem := List.mem_of_getLast? hend
    have hok := hline.ok_of_mem hmem
    have hle := hline.head_start_le (fun _ => Expr.Nested.le) hmem
    have hstop := hline.le_stop (fun _ => Expr.Nested.le) hmem
    have hlt := hok.proper.lt
    refine ⟨?_, by simp⟩
    rw [between_cons, between_nil]
    exact ⟨hstart, ⟨hle.trans_lt hlt, hfirst.proper.start, hok.proper.stop⟩, hstop⟩

end Context

end Terse
