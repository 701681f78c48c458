import Mathlib.Tactic.Order
import Terse.Proofs.View.Spine
import Terse.Rule.Function

/-!
# Calls with surplus arguments

The functions `identity` and `always` may be given more arguments than they take. Their fix then
takes the function and what it ignores away, and leaves the argument it returns with the surplus
ones. Where the call is written over several nodes, that can leave one of two brackets behind.
-/

namespace Terse

/-! ## Split brackets -/

/-- The edit takes the opening one of the brackets at a range. -/
def Edit.TakesOpening (edit : Edit) (r : Range) : Prop :=
  edit.range.start ≤ r.start ∧ r.start < edit.range.stop

/-- The edit takes the closing one of the brackets at a range. -/
def Edit.TakesClosing (edit : Edit) (r : Range) : Prop :=
  edit.range.start < r.stop ∧ r.stop ≤ edit.range.stop

/-- Some brackets in the expression lose one of the two to the edits and keep the other. -/
def SplitsBrackets (edits : List Edit) (e : Expr) : Prop :=
  ∃ r ∈ e.brackets, ¬((∃ edit ∈ edits, edit.TakesOpening r) ↔ ∃ edit ∈ edits, edit.TakesClosing r)

/-- The edits that take away what stands from a location to the first argument, and behind it to
the end of the last argument that the function takes. -/
def dropEdits (start : Location) (first last : Range) : List Edit :=
  [.remove ⟨start, first.start⟩, .remove ⟨first.stop, last.stop⟩]

theorem dropEdits_opening {start : Location} {first last r : Range} :
    (∃ edit ∈ dropEdits start first last, edit.TakesOpening r) ↔
      (start ≤ r.start ∧ r.start < first.start) ∨ (first.stop ≤ r.start ∧ r.start < last.stop) := by
  simp [dropEdits, Edit.TakesOpening, Edit.range]

theorem dropEdits_closing {start : Location} {first last r : Range} :
    (∃ edit ∈ dropEdits start first last, edit.TakesClosing r) ↔
      (start < r.stop ∧ r.stop ≤ first.start) ∨ (first.stop < r.stop ∧ r.stop ≤ last.stop) := by
  simp [dropEdits, Edit.TakesClosing, Edit.range]

/-- A single edit up to the first argument splits what it splits with nothing taken behind it. -/
theorem splitsBrackets_single_iff {start : Location} {first : Range} {e : Expr} :
    SplitsBrackets [.remove ⟨start, first.start⟩] e ↔
      SplitsBrackets (dropEdits start first first) e := by
  have hnothing : ∀ l : Location, ¬(first.stop ≤ l ∧ l < first.stop) ∧
      ¬(first.stop < l ∧ l ≤ first.stop) := fun l =>
    ⟨fun h => absurd h.2 h.1.not_gt, fun h => absurd h.1 h.2.not_gt⟩
  simp only [SplitsBrackets, dropEdits_opening, dropEdits_closing, hnothing, or_false]
  simp [Edit.TakesOpening, Edit.TakesClosing, Edit.range]

/-! ## The arguments that the function takes -/

variable {place : Location → Prop}

/-- The application `fn args` at the range `w` gives the last argument that the function takes.
The first one it takes may be given there as well, or inside `fn`. -/
structure Takes (place : Location → Prop) (c : Expr) (w : Range) (fn : Expr) (args : List Expr)
    (first last : Expr) : Prop where
  fn_nested : fn.Nested place
  start_eq : w.start = fn.range.start
  first_nested : first.Nested place
  last_nested : last.Nested place
  fn_stop_le : fn.range.stop ≤ last.range.start
  last_stop_le : last.range.stop ≤ w.stop
  first_side : fn.range.stop ≤ first.range.start ∨ fn.spineArgs[0]? = some first
  head_eq : c.head = fn.head
  head_stop_le : c.head.range.stop ≤ first.range.start
  first_stop_le : first.range.stop ≤ last.range.stop
  args_sides : ∀ a ∈ args, a.Nested place ∧ (a = first ∨
    (first.range.stop ≤ a.range.start ∧ a.range.stop ≤ last.range.stop) ∨
    last.range.stop ≤ a.range.start)

theorem Expr.Gives.takes {c fn first last : Expr} {n : Nat} {w : Range} {args more : List Expr}
    (hc : c.Nested place) (hg : c.Gives place n w fn args more)
    (hfirst : c.spineArgs[0]? = some first) (hlast : c.spineArgs[n - 1]? = some last) :
    Takes place c w fn args first last := by
  have hbetween := hc.spineArgs_between
  have hsides := fun {a} => Expr.args_sides (a := a) hbetween hfirst hlast
  have hnested := hg.lies.1
  rw [Expr.Nested] at hnested
  rcases hnested with ⟨-, hstart, hfn, -, hargs⟩
  have hlt := hg.lt
  have hle := hg.le
  have hfirstMem := List.mem_of_getElem? hfirst
  have hfirstNested := hbetween.ok_of_mem hfirstMem
  have hspine := hg.spineArgs_eq
  have hmem : ∀ a ∈ args, a ∈ c.spineArgs := by
    intro a ha
    simp [hspine, ha]
  -- the last one lies past the arguments of `fn` and among those that `args` adds
  have hlastMem : last ∈ args := by
    rw [hspine, List.getElem?_append_left (by simp; omega),
      List.getElem?_append_right (by omega)] at hlast
    exact List.mem_of_getElem? hlast
  -- so it stands behind `fn`, and in the application
  have hlastLies := Expr.lies_of_mem hargs hlastMem
  refine ⟨hfn, hstart, hfirstNested, hlastLies.1, hlastLies.2.1, hlastLies.2.2, ?_, hg.head_eq,
    hbetween.start_le (fun _ => Expr.Nested.le) hfirstMem, ?_, ?_⟩
  · cases hgiven : fn.spineArgs with
    | nil =>
      -- the first argument is given by the same application
      have hargsFirst : args[0]? = some first := by
        rw [hspine, hgiven, List.nil_append,
          List.getElem?_append_left (by simp [hgiven] at hle; omega)] at hfirst
        exact hfirst
      exact .inl (Expr.lies_of_mem hargs (List.mem_of_getElem? hargsFirst)).2.1
    | cons a rest =>
      rw [hspine, hgiven] at hfirst
      exact .inr (by simpa using hfirst)
  · rcases hsides (List.mem_of_getElem? hlast) with rfl | ⟨h1, -⟩ | h1
    · exact le_rfl
    · exact h1.trans hlastLies.1.le
    · exact absurd (hlastLies.1.proper.lt.trans_le h1) (lt_irrefl _)
  · intro a ha
    exact ⟨hbetween.ok_of_mem (hmem a ha), hsides (hmem a ha)⟩

namespace Takes

variable {c fn first last : Expr} {w : Range} {args : List Expr}
  (h : Takes place c w fn args first last)
include h

/-- Brackets in the application lose both of the two to the edits that start where it does, or
none. -/
theorem dropEdits_inside {r : Range} (hr : r ∈ (Expr.app w fn args).brackets) :
    (∃ edit ∈ dropEdits w.start first.range last.range, edit.TakesOpening r) ↔
      ∃ edit ∈ dropEdits w.start first.range last.range, edit.TakesClosing r := by
  rw [dropEdits_opening, dropEdits_closing]
  have hstart := h.start_eq
  have hfnStop := h.fn_stop_le
  have hfirst := h.first_nested.proper.lt
  have hlast := h.last_nested.proper.lt
  have hfirstStop := h.first_stop_le
  rcases Expr.mem_brackets_app.mp hr with hr | ⟨a, ha, hr⟩
  · rcases h.fn_nested.brackets hr with ⟨hlt, hle, hle'⟩
    rcases h.first_side with hside | hside
    · -- all of `fn` stands before the first argument, and the first edit takes it
      grind
    · -- brackets around the first argument lose the opening one to one edit and the closing one to
      -- the other
      rcases h.fn_nested.brackets_around_first hside hr with h1 | ⟨h1, h2⟩ | h1 | ⟨h1, h2⟩ <;> grind
  · rcases h.args_sides a ha with ⟨hnested, hsides⟩
    rcases hnested.brackets hr with ⟨hlt, hle, hle'⟩
    rcases hsides with rfl | ⟨h1, h2⟩ | h1 <;> grind

end Takes

section

variable {c first last : Expr} {n : Nat} (hn : 0 < n) (hle : n ≤ c.spineArgs.length)
  {w : Range} {fn : Expr} {args more : List Expr} (hc : c.Nested place)
  (hg : c.Gives place n w fn args more) (hfirst : c.spineArgs[0]? = some first)
  (hlast : c.spineArgs[n - 1]? = some last)
include hc hg hfirst hlast

include hn hle in
/-- From the start of the application that gives the last argument, brackets stay whole. -/
theorem not_splitsBrackets : ¬SplitsBrackets (dropEdits w.start first.range last.range) c := by
  have htakes := hg.takes hc hfirst hlast
  rintro ⟨r, hr, hsplit⟩
  apply hsplit
  have hsides := hc.brackets_sides hn hle hr
  rw [hg.giver_eq] at hsides
  rcases hsides with hinside | houtside
  · exact htakes.dropEdits_inside hinside
  · -- what stands around the application or behind it stays
    rw [dropEdits_opening, dropEdits_closing]
    have hrange : (Expr.app w fn args).range = w := rfl
    rw [hrange] at houtside
    have hrLt := (hc.brackets hr).1
    have hstart := htakes.start_eq
    have hstop := htakes.last_stop_le
    have hfirstLt := htakes.first_nested.proper.lt
    have hlastLt := htakes.last_nested.proper.lt
    have hfirstStop := htakes.first_stop_le
    have hfnHead := htakes.fn_nested.head
    have hheadStart := hfnHead.2.1
    have hheadLt := hfnHead.1.proper.lt
    have hheadStop := htakes.head_eq ▸ htakes.head_stop_le
    grind

include hn hle in
/-- From the start of the call, parentheses between it and the application are split. -/
theorem splitsBrackets_of_start (hne : w.start ≠ c.range.start) :
    SplitsBrackets (dropEdits c.range.start first.range last.range) c := by
  have htakes := hg.takes hc hfirst hlast
  have hgiver : (c.giver n).range = w := by rw [hg.giver_eq]; rfl
  -- their opening one goes with the head, their closing one stands behind the application
  rcases hc.brackets_around_giver hn hle (hgiver ▸ hne) with ⟨r, hr, heq, hlt⟩
  refine ⟨r, hr, ?_⟩
  rw [dropEdits_opening, dropEdits_closing]
  rw [hgiver] at hlt
  have hstop := htakes.last_stop_le
  have hfirstLt := htakes.first_nested.proper.lt
  have hfirstStop := htakes.first_stop_le
  have hheadStart := hc.head.2.1
  have hheadStop := htakes.head_stop_le
  have hheadLt := hc.head.1.proper.lt
  grind

/-- From the name of the function, parentheses between it and the application are split. -/
theorem splitsBrackets_of_head (hne : w.start ≠ c.head.range.start) :
    SplitsBrackets (dropEdits c.head.range.start first.range last.range) c := by
  have htakes := hg.takes hc hfirst hlast
  have hne' : fn.head.range.start ≠ fn.range.start := by
    rw [← htakes.head_eq, ← htakes.start_eq]
    exact hne.symm
  rcases htakes.fn_nested.brackets_around_head hne' with ⟨r, hr, heq, hhead⟩
  -- edits from the start of the application would take both
  have hboth := htakes.dropEdits_inside (Expr.mem_brackets_app.mpr (.inl hr))
  refine ⟨r, c.brackets_giver_subset n (hg.giver_eq ▸ Expr.mem_brackets_app.mpr (.inl hr)), ?_⟩
  rw [dropEdits_opening, dropEdits_closing] at hboth ⊢
  have hstart := htakes.start_eq
  have hfnHead := htakes.fn_nested.head
  have hheadStart := hfnHead.2.1
  have hheadLt := hfnHead.1.proper.lt
  have hheadStop := htakes.head_stop_le
  have hfirstLt := htakes.first_nested.proper.lt
  rw [htakes.head_eq] at hheadStop ⊢
  grind

omit hg in
include hn hle in
/-- Edits from the start of a call, or from the name of its function, split brackets unless the
application that gives the last argument starts there. -/
theorem splitsBrackets_dropEdits_iff {start : Location}
    (hstart : start = c.range.start ∨ start = c.head.range.start) :
    SplitsBrackets (dropEdits start first.range last.range) c ↔
      start ≠ (c.giver n).range.start := by
  rcases hc.exists_gives hn hle with ⟨w, fn, args, more, hg⟩
  have hgiver : (c.giver n).range = w := by rw [hg.giver_eq]; rfl
  rw [hgiver]
  constructor
  · rintro hsplit rfl
    exact not_splitsBrackets hn hle hc hg hfirst hlast hsplit
  · intro hne
    rcases hstart with rfl | rfl
    · exact splitsBrackets_of_start hn hle hc hg hfirst hlast hne.symm
    · exact splitsBrackets_of_head hc hg hfirst hlast hne.symm

end

/-- Edits to one operand split no brackets in the other. -/
theorem splitsBrackets_callee_iff {w : Range} {symbol : String} {left right : Expr}
    (h : (Expr.binary w symbol left right).Nested place) {edits : List Edit}
    (hedits : ∀ edit ∈ edits,
      (Expr.binary w symbol left right).callee.range.start ≤ edit.range.start ∧
        edit.range.stop ≤ (Expr.binary w symbol left right).callee.range.stop) :
    SplitsBrackets edits (.binary w symbol left right) ↔
      SplitsBrackets edits (Expr.binary w symbol left right).callee := by
  rw [Expr.Nested] at h
  rcases h with ⟨-, -, hleft, hgap, hright, -⟩
  have hother : ∀ {c x : Expr}, x.Nested place →
      (x.range.stop < c.range.start ∨ c.range.stop < x.range.start) →
      (∀ edit ∈ edits, c.range.start ≤ edit.range.start ∧ edit.range.stop ≤ c.range.stop) →
      ¬SplitsBrackets edits x := by
    rintro c x hx hside hedits ⟨r, hr, hsplit⟩
    have hbrackets := hx.brackets hr
    apply hsplit
    constructor
    · rintro ⟨edit, hedit, htakes⟩
      have hin := hedits edit hedit
      unfold Edit.TakesOpening at htakes
      grind
    · rintro ⟨edit, hedit, htakes⟩
      have hin := hedits edit hedit
      unfold Edit.TakesClosing at htakes
      grind
  -- an operation has no brackets of its own
  have hor : SplitsBrackets edits (.binary w symbol left right) ↔
      SplitsBrackets edits left ∨ SplitsBrackets edits right := by
    simp only [SplitsBrackets, Expr.mem_brackets_binary, or_and_right, exists_or]
  rw [hor]
  unfold Expr.callee at hedits ⊢
  dsimp only at hedits ⊢
  split at hedits
  · rename_i hsymbol
    rw [if_pos hsymbol, or_iff_right (hother hleft (.inl hgap) hedits)]
  · rename_i hsymbol
    rw [if_neg hsymbol, or_iff_left (hother hright (.inr hgap) hedits)]

namespace Rule

/-- The call is one of a function that takes `n` arguments: of `identity`, or of `always`. -/
def DropsArguments (call : Call) (n : Nat) : Prop :=
  (call.isOf Core.basics "identity" = true ∧ n = 1) ∨
    (call.isOf Core.basics "always" = true ∧ n = 2)

/-- The rule always reports such a call with surplus arguments, and its fix drops what stands from
the head on around the first argument. -/
theorem exists_check_basics {ctx : Context} {e : Expr} {call : Call} {n : Nat}
    (hcall : Call.ofExpr? ctx e = some call) (hn : DropsArguments call n)
    (hlt : n < call.args.length) :
    ∃ f first last, basics.check ctx e = some f ∧ call.args[0]? = some first ∧
      call.args[n - 1]? = some last ∧ ∀ x, SplitsBrackets f.edits x ↔
        SplitsBrackets (dropEdits (headStart call e) first.range last.range) x := by
  -- a chain of compositions is not a call, since calls are piped by other operators
  have hchain : Chain.ofExpr? e = none := by
    unfold Chain.ofExpr?
    split
    · rename_i r symbol left right
      rcases Call.within_pipe hcall with ⟨hsymbol, -⟩
      rcases hsymbol with rfl | rfl <;> exact if_neg (by decide)
    · rfl
  have hcheck : basics.check ctx e = checkBasics ctx e := rfl
  simp only [hcheck, checkBasics, hchain, hcall]
  rcases hn with ⟨hidentity, rfl⟩ | ⟨halways, rfl⟩
  · rcases List.exists_cons_of_length_pos (Nat.zero_lt_of_lt hlt) with ⟨first, more, hargs⟩
    have hmore : more.isEmpty = false := by
      rw [hargs] at hlt
      simpa [List.length_pos_iff] using hlt
    rw [if_pos hidentity, checkIdentity, hargs]
    simp only [hmore]
    refine ⟨_, first, first, rfl, rfl, rfl, fun x => ?_⟩
    exact splitsBrackets_single_iff
  · have hidentity : call.isOf Core.basics "identity" = false := by
      simp only [Call.isOf, beq_iff_eq, beq_eq_false_iff_ne] at halways ⊢
      rw [halways]
      decide
    obtain ⟨first, second, third, more, hargs⟩ :
        ∃ first second third more, call.args = first :: second :: third :: more := by
      rcases hargs : call.args with _ | ⟨first, _ | ⟨second, _ | ⟨third, more⟩⟩⟩
      · simp [hargs] at hlt
      · simp [hargs] at hlt
      · simp [hargs] at hlt
      · exact ⟨first, second, third, more, rfl⟩
    rw [if_neg (by simp [hidentity]), if_pos halways, checkAlways, hargs]
    exact ⟨_, first, second, rfl, rfl, rfl, fun x => Iff.rfl⟩

variable {ctx : Context} {e : Expr} {call : Call} {n : Nat} (he : e.Nested place)
  (hcall : Call.ofExpr? ctx e = some call) (hn : DropsArguments call n)
  (hlt : n < call.args.length)
include he hcall hn hlt

/-- The fix splits brackets unless it starts where the application that gives the last argument
that the function takes does. -/
theorem splitsBrackets_basics_iff (hform : basics.forms.contains e.form = true) :
    ∃ f, basics.check ctx e = some f ∧ (SplitsBrackets f.edits e ↔
      headStart call e ≠ (e.callee.giver n).range.start) := by
  rcases exists_check_basics hcall hn hlt with ⟨f, first, last, hf, hfirst, hlast, hedits⟩
  refine ⟨f, hf, ?_⟩
  rw [hedits]
  have hpos : 0 < n := by rcases hn with ⟨-, rfl⟩ | ⟨-, rfl⟩ <;> decide
  have hforms : e.form = .app ∨ e.form = .binary := by simpa [basics] using hform
  cases e with
  | app w fn args =>
    have hform : call.form = .direct := by
      cases Call.within_eq_some_iff.mp hcall
      rfl
    rcases Call.within_spine hcall hform with ⟨-, hargs⟩
    rw [hargs] at hfirst hlast hlt
    have hstart : headStart call (.app w fn args) = w.start := by
      rw [Expr.Nested] at he
      unfold headStart
      rw [hform]
      exact he.2.1.symm
    exact splitsBrackets_dropEdits_iff hpos hlt.le he hfirst hlast (.inl hstart)
  | binary w symbol left right =>
    have hcallee : (Expr.binary w symbol left right).callee.Nested place := by
      rw [Expr.Nested] at he
      unfold Expr.callee
      dsimp only
      split
      · exact he.2.2.2.2.1
      · exact he.2.2.1
    generalize hc : (Expr.binary w symbol left right).callee = c at hcallee ⊢
    rcases Call.within_pipe hcall with ⟨-, -, hfn, piped, hargs⟩
    rw [hc] at hfn hargs
    have hle : n ≤ c.spineArgs.length := by
      rw [hargs, List.length_append, List.length_singleton] at hlt
      omega
    rw [hargs, List.getElem?_append_left (by omega)] at hfirst hlast
    have hstart : headStart call (.binary w symbol left right) = c.head.range.start :=
      congrArg Range.start hfn
    rw [splitsBrackets_callee_iff he, hc]
    · exact splitsBrackets_dropEdits_iff hpos hle hcallee hfirst hlast (.inr hstart)
    · -- the edits stay in the operand that is called
      rw [hc, hstart]
      have hbetween := hcallee.spineArgs_between
      have hlies : ∀ a ∈ c.spineArgs, a.range.start ≤ a.range.stop ∧
          c.head.range.stop ≤ a.range.start ∧ a.range.stop ≤ c.range.stop := fun a ha =>
        ⟨(hbetween.ok_of_mem ha).le, hbetween.start_le (fun _ => Expr.Nested.le) ha,
          hbetween.le_stop (fun _ => Expr.Nested.le) ha⟩
      have hfirstLies := hlies first (List.mem_of_getElem? hfirst)
      have hlastLies := hlies last (List.mem_of_getElem? hlast)
      have hhead := hcallee.head
      have hheadStart := hhead.2.1
      have hheadLe := hhead.1.le
      simp only [dropEdits, List.mem_cons, List.not_mem_nil, or_false]
      rintro edit (rfl | rfl) <;> simp only [Edit.range] <;> grind
  | _ => simp [Expr.form] at hforms

end Rule

end Terse
