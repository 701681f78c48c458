import Mathlib.Tactic.Order
import Terse.Proofs.View.Call

/-!
# The spine of a call

A direct call is a function under parentheses and arguments. Going down from the call to its
function, every node in brackets either encloses the application that gives the function its
argument number `n`, or lies inside it, or stands behind it.
-/

namespace Terse.Expr

/-! ## Definitions -/

/-- The function that is applied, under all parentheses and arguments. -/
def head : Expr → Expr
  | paren _ inner => inner.head
  | app _ fn _ => fn.head
  | e => e

/-- The arguments that are given to the head. -/
def spineArgs : Expr → List Expr
  | paren _ inner => inner.spineArgs
  | app _ fn args => fn.spineArgs ++ args
  | _ => []

/-- The application that gives the head its argument number `n`. -/
def giver (n : Nat) : Expr → Expr
  | paren _ inner => inner.giver n
  | e@(app _ fn _) => if n ≤ fn.spineArgs.length then fn.giver n else e
  | e => e

/-- The operand of a pipe that is called with the other one; anything else is called itself. -/
def callee : Expr → Expr
  | binary _ symbol left right => if symbol == "|>" then right else left
  | e => e

/-- The expression starts with an opening bracket and ends with the closing one. -/
def isBracketed : Expr → Bool
  | unit _ | operatorFn _ _ | paren _ _ | list _ _ | tuple _ _ | record _ _ | update _ _ _ => true
  | _ => false

/-- Where the nodes in brackets stand. -/
def brackets (e : Expr) : List Range := (e.nodes.filter isBracketed).map range

variable {place : Location → Prop}

/-! ## Brackets -/

theorem mem_brackets {e : Expr} {r : Range} :
    r ∈ e.brackets ↔ (e.isBracketed = true ∧ e.range = r) ∨ ∃ c ∈ e.children, r ∈ c.brackets := by
  simp only [brackets, List.mem_map, List.mem_filter]
  rw [nodes_eq e]
  simp only [List.mem_cons, List.mem_flatMap]
  constructor
  · rintro ⟨x, ⟨rfl | ⟨c, hc, hx⟩, hbracketed⟩, hr⟩
    · exact .inl ⟨hbracketed, hr⟩
    · exact .inr ⟨c, hc, x, ⟨hx, hbracketed⟩, hr⟩
  · rintro (⟨hbracketed, hr⟩ | ⟨c, hc, x, ⟨hx, hbracketed⟩, hr⟩)
    · exact ⟨e, ⟨.inl rfl, hbracketed⟩, hr⟩
    · exact ⟨x, ⟨.inr ⟨c, hc, hx⟩, hbracketed⟩, hr⟩

theorem mem_brackets_paren {r0 r : Range} {inner : Expr} :
    r ∈ (paren r0 inner).brackets ↔ r = r0 ∨ r ∈ inner.brackets := by
  rw [mem_brackets]
  simp [children, isBracketed, range, eq_comm]

theorem mem_brackets_app {w r : Range} {fn : Expr} {args : List Expr} :
    r ∈ (app w fn args).brackets ↔ r ∈ fn.brackets ∨ ∃ a ∈ args, r ∈ a.brackets := by
  rw [mem_brackets]
  simp [children, isBracketed]

theorem mem_brackets_binary {w r : Range} {symbol : String} {left right : Expr} :
    r ∈ (binary w symbol left right).brackets ↔ r ∈ left.brackets ∨ r ∈ right.brackets := by
  rw [mem_brackets]
  simp [children, isBracketed]

/-- Nodes in brackets stand in the expression. -/
theorem Nested.brackets {e : Expr} (h : e.Nested place) {r : Range} (hr : r ∈ e.brackets) :
    r.start < r.stop ∧ e.range.start ≤ r.start ∧ r.stop ≤ e.range.stop := by
  rcases List.mem_map.mp hr with ⟨x, hx, rfl⟩
  rcases h.nodes (List.mem_filter.mp hx).1 with ⟨hnested, hstart, hstop⟩
  exact ⟨hnested.proper.lt, hstart, hstop⟩

/-! ## The head -/

/-- The head stands in the expression. -/
theorem Nested.head {e : Expr} (h : e.Nested place) :
    e.head.Lies place e.range.start e.range.stop := by
  fun_induction Expr.head e with
  | case1 r inner ih =>
    have hlies := h.children (c := inner) (List.mem_singleton.mpr rfl)
    exact (ih hlies.1).mono hlies.2.1 hlies.2.2
  | case2 w fn args ih =>
    have hlies := h.children (c := fn) List.mem_cons_self
    exact (ih hlies.1).mono hlies.2.1 hlies.2.2
  | case3 => exact ⟨h, le_rfl, le_rfl⟩

/-- If the head does not start the expression, then parentheses around the head do. -/
theorem Nested.brackets_around_head {e : Expr} (h : e.Nested place)
    (hne : e.head.range.start ≠ e.range.start) :
    ∃ r ∈ e.brackets, r.start = e.range.start ∧ e.head.range.stop ≤ r.stop := by
  fun_induction Expr.head e with
  | case1 r inner =>
    have hlies := h.children (c := inner) (List.mem_singleton.mpr rfl)
    have hhead := hlies.1.head
    exact ⟨r, mem_brackets_paren.mpr (.inl rfl), rfl, hhead.2.2.trans hlies.2.2⟩
  | case2 w fn args ih =>
    have hfn := (h.children (c := fn) List.mem_cons_self).1
    have hstart : w.start = fn.range.start := by
      rw [Nested] at h
      exact h.2.1
    rcases ih hfn (hstart ▸ hne) with ⟨r, hr, heq, hle⟩
    exact ⟨r, mem_brackets_app.mpr (.inl hr), heq.trans hstart.symm, hle⟩
  | case3 => exact absurd rfl hne

/-! ## The application that gives an argument -/

/-- The application `fn args` at the range `w` gives the head of an expression its argument number
`n`: the head has fewer arguments in `fn`, and has that many with `args`. -/
structure Gives (place : Location → Prop) (e : Expr) (n : Nat) (w : Range) (fn : Expr)
    (args more : List Expr) : Prop where
  giver_eq : e.giver n = app w fn args
  lies : (app w fn args).Lies place e.range.start e.range.stop
  head_eq : e.head = fn.head
  spineArgs_eq : e.spineArgs = fn.spineArgs ++ args ++ more
  lt : fn.spineArgs.length < n
  le : n ≤ fn.spineArgs.length + args.length

/-- Every argument of the head is given by some application. -/
theorem Nested.exists_gives {e : Expr} (h : e.Nested place) {n : Nat} (hn : 0 < n)
    (hle : n ≤ e.spineArgs.length) : ∃ w fn args more, Gives place e n w fn args more := by
  fun_induction spineArgs e with
  | case1 r inner ih =>
    have hlies := h.children (c := inner) (List.mem_singleton.mpr rfl)
    rcases ih hlies.1 hle with ⟨w, fn, args, more, hg⟩
    refine ⟨w, fn, args, more, ?_, hg.lies.mono hlies.2.1 hlies.2.2, ?_, ?_, hg.lt, hg.le⟩
    · rw [giver, hg.giver_eq]
    · rw [Expr.head, hg.head_eq]
    · rw [spineArgs, hg.spineArgs_eq]
  | case2 w fn args ih =>
    by_cases hfn : n ≤ fn.spineArgs.length
    · -- the function has this argument already
      have hlies := h.children (c := fn) List.mem_cons_self
      rcases ih hlies.1 hfn with ⟨w', fn', args', more, hg⟩
      refine ⟨w', fn', args', more ++ args, ?_, hg.lies.mono hlies.2.1 hlies.2.2, ?_, ?_, hg.lt,
        hg.le⟩
      · rw [giver, if_pos hfn, hg.giver_eq]
      · rw [Expr.head, hg.head_eq]
      · rw [spineArgs, hg.spineArgs_eq, List.append_assoc]
    · refine ⟨w, fn, args, [], ?_, ⟨h, le_rfl, le_rfl⟩, ?_, ?_, by omega, ?_⟩
      · rw [giver, if_neg hfn]
      · rw [Expr.head]
      · rw [spineArgs, List.append_nil]
      · rw [List.length_append] at hle
        exact hle
  | case3 => exact absurd (hn.trans_le hle) (Nat.lt_irrefl 0)

theorem Nested.giver_lies {e : Expr} (h : e.Nested place) {n : Nat} (hn : 0 < n)
    (hle : n ≤ e.spineArgs.length) : (e.giver n).Lies place e.range.start e.range.stop := by
  rcases h.exists_gives hn hle with ⟨w, fn, args, more, hg⟩
  exact hg.giver_eq ▸ hg.lies

/-- Brackets in a call lie in the application that gives an argument, enclose it, or stand behind
it. -/
theorem Nested.brackets_sides {e : Expr} (h : e.Nested place) {n : Nat} (hn : 0 < n)
    (hle : n ≤ e.spineArgs.length) {r : Range} (hr : r ∈ e.brackets) :
    r ∈ (e.giver n).brackets ∨
      (r.start < (e.giver n).range.start ∧ (e.giver n).range.stop < r.stop) ∨
      (e.giver n).range.stop ≤ r.start := by
  fun_induction spineArgs e with
  | case1 r0 inner ih =>
    have hinner := (h.children (c := inner) (List.mem_singleton.mpr rfl)).1
    have hgiver := hinner.giver_lies hn hle
    rw [giver]
    rcases mem_brackets_paren.mp hr with rfl | hr
    · -- these parentheses are around all of the spine
      rw [Nested] at h
      rcases h with ⟨-, hstart, -, hstop⟩
      exact .inr (.inl ⟨hstart.trans_le hgiver.2.1, hgiver.2.2.trans_lt hstop⟩)
    · exact ih hinner hle hr
  | case2 w fn args ih =>
    have hnested := (h.children (c := fn) List.mem_cons_self).1
    rw [giver]
    split
    · rename_i hfn
      have hgiver := hnested.giver_lies hn hfn
      rcases mem_brackets_app.mp hr with hr | ⟨a, ha, hr⟩
      · exact ih hnested hfn hr
      · -- the arguments stand behind the function
        rw [Nested] at h
        have hlies := lies_of_mem h.2.2.2.2 ha
        exact .inr (.inr (hgiver.2.2.trans (hlies.2.1.trans (hlies.1.brackets hr).2.1)))
    · exact .inl hr
  | case3 => exact absurd (hn.trans_le hle) (Nat.lt_irrefl 0)

/-- The application that gives an argument is a node of the call. -/
theorem brackets_giver_subset (e : Expr) (n : Nat) : (e.giver n).brackets ⊆ e.brackets := by
  fun_induction giver n e with
  | case1 r inner ih => exact fun _ hr => mem_brackets_paren.mpr (.inr (ih hr))
  | case2 w fn args _ ih => exact fun _ hr => mem_brackets_app.mpr (.inl (ih hr))
  | case3 | case4 => exact List.Subset.refl _

/-- If the application that gives an argument does not start the call, then parentheses around the
application do. -/
theorem Nested.brackets_around_giver {e : Expr} (h : e.Nested place) {n : Nat} (hn : 0 < n)
    (hle : n ≤ e.spineArgs.length) (hne : (e.giver n).range.start ≠ e.range.start) :
    ∃ r ∈ e.brackets, r.start = e.range.start ∧ (e.giver n).range.stop < r.stop := by
  fun_induction spineArgs e with
  | case1 r inner =>
    have hgiver := (h.children (c := inner) (List.mem_singleton.mpr rfl)).1.giver_lies hn hle
    rw [Nested] at h
    rw [giver]
    -- the outermost parentheses are around the application already
    exact ⟨r, mem_brackets_paren.mpr (.inl rfl), rfl, hgiver.2.2.trans_lt h.2.2.2⟩
  | case2 w fn args ih =>
    have hnested := (h.children (c := fn) List.mem_cons_self).1
    have hstart : w.start = fn.range.start := by
      rw [Nested] at h
      exact h.2.1
    rw [giver] at hne ⊢
    split at hne
    · rename_i hfn
      rcases ih hnested hfn (hstart ▸ hne) with ⟨r, hr, heq, hlt⟩
      rw [if_pos hfn]
      exact ⟨r, mem_brackets_app.mpr (.inl hr), heq.trans hstart.symm, hlt⟩
    · exact absurd rfl hne
  | case3 => exact absurd (hn.trans_le hle) (Nat.lt_irrefl 0)

/-! ## The arguments -/

/-- The arguments of the head follow one another behind it. -/
theorem Nested.spineArgs_between {e : Expr} (h : e.Nested place) :
    Between range (Nested place) e.head.range.stop e.spineArgs e.range.stop := by
  fun_induction spineArgs e with
  | case1 r inner ih =>
    have hlies := h.children (c := inner) (List.mem_singleton.mpr rfl)
    rw [Expr.head]
    exact (ih hlies.1).mono le_rfl hlies.2.2
  | case2 w fn args ih =>
    have hfn := ih (h.children (c := fn) List.mem_cons_self).1
    rw [Nested] at h
    rw [Expr.head]
    exact hfn.append (nestedAll_iff.mp h.2.2.2.2).between
  | case3 e hparen happ =>
    rw [Expr.head]
    exacts [between_nil.mpr le_rfl, hparen, happ]

/-- Any argument is the first one, stands between the first one and the end of a later one, or
stands behind that later one. -/
theorem args_sides {start stop : Location} {es : List Expr}
    (h : Between range (Nested place) start es stop) {first last a : Expr} {i : Nat}
    (hfirst : es[0]? = some first) (hlast : es[i]? = some last) (ha : a ∈ es) :
    a = first ∨ (first.range.stop ≤ a.range.start ∧ a.range.stop ≤ last.range.stop) ∨
      last.range.stop ≤ a.range.start := by
  have hpairwise := List.pairwise_iff_getElem.mp (h.pairwise fun _ => Nested.le)
  rcases List.getElem_of_mem ha with ⟨j, hj, rfl⟩
  rcases List.getElem?_eq_some_iff.mp hfirst with ⟨h0, rfl⟩
  rcases List.getElem?_eq_some_iff.mp hlast with ⟨hi, rfl⟩
  have hle := (h.ok_of_mem (List.getElem_mem hi)).le
  rcases Nat.eq_zero_or_pos j with rfl | hpos
  · exact .inl rfl
  · have hfirstLe := hpairwise 0 j h0 hj hpos
    rcases Nat.lt_trichotomy j i with hlt | rfl | hgt
    · exact .inr (.inl ⟨hfirstLe, (hpairwise j i hj hi hlt).trans hle⟩)
    · exact .inr (.inl ⟨hfirstLe, le_rfl⟩)
    · exact .inr (.inr (hpairwise i j hi hj hgt))

/-- Brackets in a call stand before the first argument, in it, behind it, or around it. -/
theorem Nested.brackets_around_first {e : Expr} (h : e.Nested place) {first : Expr}
    (hfirst : e.spineArgs[0]? = some first) {r : Range} (hr : r ∈ e.brackets) :
    r.stop ≤ first.range.start ∨
      (first.range.start ≤ r.start ∧ r.stop ≤ first.range.stop) ∨
      first.range.stop ≤ r.start ∨
      (r.start < first.range.start ∧ first.range.stop < r.stop) := by
  have hpos := (List.getElem?_eq_some_iff.mp hfirst).1
  rcases h.exists_gives Nat.one_pos hpos with ⟨w, fn, args, more, hg⟩
  have hsides := h.brackets_sides Nat.one_pos hpos hr
  rw [hg.giver_eq] at hsides
  have hspine := hg.spineArgs_eq
  -- the application that gives the first argument gives it to the bare function
  have hnil : fn.spineArgs = [] := List.length_eq_zero_iff.mp (Nat.lt_one_iff.mp hg.lt)
  rw [hnil] at hspine
  have hnested := hg.lies.1
  rw [Nested] at hnested
  rcases hnested with ⟨-, hstart, hfn, hne, hargs⟩
  rcases List.exists_cons_of_ne_nil hne with ⟨a, args, rfl⟩
  -- so the first of its arguments is the first of all
  obtain rfl : a = first := by simpa [hspine] using hfirst
  rcases hargs with ⟨hgap, ha, hrest⟩
  have hstop := InLine.le (fun _ => Nested.le) (nestedAll_iff.mp hrest)
  have hfnLt := hfn.proper.lt
  have hstart : w.start = fn.range.start := hstart
  have hwstart : (app w fn (a :: args)).range.start = w.start := rfl
  have hwstop : (app w fn (a :: args)).range.stop = w.stop := rfl
  rw [hwstart, hwstop] at hsides
  rcases hsides with hinside | ⟨hbefore, hafter⟩ | hafter
  · rcases mem_brackets_app.mp hinside with hr' | ⟨b, hb, hr'⟩
    · exact .inl ((hfn.brackets hr').2.2.trans hgap)
    · rcases List.mem_cons.mp hb with rfl | hb
      · exact .inr (.inl (ha.brackets hr').2)
      · have hlies := lies_of_mem hrest hb
        exact .inr (.inr (.inl (hlies.2.1.trans (hlies.1.brackets hr').2.1)))
  · exact .inr (.inr (.inr ⟨by order, by order⟩))
  · exact .inr (.inr (.inl (by order)))

end Terse.Expr

namespace Terse.Call

open Terse.Expr (head spineArgs)

/-- A direct call takes its function and its arguments from the spine. -/
theorem within_spine {ctx : Context} {range : Range} {e : Expr} {call : Call}
    (h : within ctx range e = some call) (hdirect : call.form = .direct) :
    call.fnRange = e.head.range ∧ call.args = e.spineArgs := by
  rw [within_eq_some_iff] at h
  induction h with
  | paren _ ih => exact ih hdirect
  | var => exact ⟨rfl, rfl⟩
  | @app range r fn args c _ hform ih =>
    rcases ih hform with ⟨hrange, hargs⟩
    exact ⟨hrange, congrArg (· ++ args) hargs⟩
  -- a pipe makes the call another form
  | pipeRight | pipeLeft => cases hdirect

/-- A call that is an operation pipes its last argument into its other operand. -/
theorem within_pipe {ctx : Context} {range w : Range} {symbol : String} {left right : Expr}
    {call : Call} (h : within ctx range (.binary w symbol left right) = some call) :
    (symbol = "|>" ∨ symbol = "<|") ∧ call.form ≠ .direct ∧
      call.fnRange = (Expr.binary w symbol left right).callee.head.range ∧
      ∃ piped, call.args = (Expr.binary w symbol left right).callee.spineArgs ++ [piped] := by
  cases within_eq_some_iff.mp h with
  -- each pipe calls the operand that it points to
  | pipeRight hc hform =>
    rcases within_spine (within_eq_some_iff.mpr hc) hform with ⟨hrange, hargs⟩
    exact ⟨.inl rfl, by simp, hrange, left, congrArg (· ++ [left]) hargs⟩
  | pipeLeft hc hform =>
    rcases within_spine (within_eq_some_iff.mpr hc) hform with ⟨hrange, hargs⟩
    exact ⟨.inr rfl, by simp, hrange, right, congrArg (· ++ [right]) hargs⟩

end Terse.Call
