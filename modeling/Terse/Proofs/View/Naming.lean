import Terse.Proofs.Tree.Binding
import Terse.Proofs.View.Spine

/-!
# Where the function of a call is named

A call is written around the name of its function. So a node in a call stands behind that name, or
is a call of the same function with fewer arguments; only what is piped into a call stands before
the name.
-/

namespace Terse.Call

variable {place : Location → Prop} {ctx : Context} {call : Call}

/-- What a call is does not depend on the range that it stands in. -/
theorem within_range {range : Range} {e : Expr} (h : within ctx range e = some call)
    (range' : Range) : within ctx range' e = some { call with range := range' } := by
  rw [within_eq_some_iff] at h ⊢
  induction h generalizing range' with
  | paren _ ih => exact .paren (ih range')
  | var h => exact .var h
  | app h hdirect => exact .app h hdirect
  | pipeRight h hdirect => exact .pipeRight h hdirect
  | pipeLeft h hdirect => exact .pipeLeft h hdirect

/-- A node that a function is named in on behalf of a call: on the way from the call to the
function nothing is bound, and the node is a direct call of the function with some of the
arguments. -/
structure Names (ctx : Context) (e : Expr) (call : Call) (n : Expr) (c : Call) : Prop where
  around : e.Around [] n
  ofExpr?_eq : ofExpr? ctx n = some c
  direct : c.form = .direct
  function_eq : c.function = call.function
  fnRange_eq : c.fnRange = call.fnRange
  args_le : c.args.length ≤ call.args.length

/-- A function that is given arguments is named where it is named without them. -/
theorem extend_names {e child n : Expr} {c : Call} {more : List Expr} (hmore : more ≠ [])
    (hchild : child ∈ e.children) (hform : e.form = .app ∨ e.form = .binary)
    (h : c.fnRange.start ≤ n.range.start ∨ ∃ c', Names ctx child c n c') (form : CallForm)
    (range : Range) :
    c.fnRange.start ≤ n.range.start ∨
      ∃ c', Names ctx e { c with args := c.args ++ more, form := form, range := range } n c' ∧
        c'.args.length < (c.args ++ more).length := by
  have hlambda : e.form ≠ .lambda := by rcases hform with h | h <;> simp [h]
  have hcase : e.form ≠ .case := by rcases hform with h | h <;> simp [h]
  rcases h with hbehind | ⟨c', hc'⟩
  · exact .inl hbehind
  have hpos := List.length_pos_iff.mpr hmore
  have hle := hc'.args_le
  refine .inr ⟨c', ?_, ?_⟩
  · exact ⟨hc'.around.of_part hlambda hcase hchild, hc'.ofExpr?_eq, hc'.direct, hc'.function_eq,
      hc'.fnRange_eq, hle.trans (by simp)⟩
  · rw [List.length_append]
    omega

/-- What stands behind a call stands behind the place where the function is named. -/
theorem Stands.fn_start_le {start stop : Location} (h : call.Stands place start stop) {x n : Expr}
    (hx : x.Nested place) (hgap : stop ≤ x.range.start) (hn : n ∈ x.nodes) :
    call.fnRange.start ≤ n.range.start := by
  have hnstart := (hx.nodes hn).2.1
  have hstop := h.fn_stop_le
  have hlt := h.fn.lt
  order

/-- Every node in a direct call stands behind the place where the function is named, or the
function is named in it. -/
theorem within_names {range : Range} {e n : Expr} (he : e.Nested place)
    (h : within ctx range e = some call) (hdirect : call.form = .direct) (hn : n ∈ e.nodes) :
    call.fnRange.start ≤ n.range.start ∨ ∃ c, Names ctx e call n c := by
  induction e using Expr.induction_on_children generalizing range call with
  | step e ih =>
    have hself : ∃ c, Names ctx e call e c :=
      ⟨_, .root, within_range h e.range, hdirect, rfl, rfl, le_rfl⟩
    rw [Expr.nodes_eq] at hn
    rcases List.mem_cons.mp hn with rfl | hbelow
    · exact .inr hself
    rcases List.mem_flatMap.mp hbelow with ⟨child, hchild, hnc⟩
    have hnested := (he.children hchild).1
    cases within_eq_some_iff.mp h with
    | paren hc =>
      obtain rfl := List.mem_singleton.mp hchild
      rcases ih child hchild hnested (within_eq_some_iff.mpr hc) hdirect hnc with
        hbehind | ⟨c, hc⟩
      · exact .inl hbehind
      refine .inr ⟨c, ?_⟩
      have haround := hc.around.of_part (by simp [Expr.form]) (by simp [Expr.form]) hchild
      exact ⟨haround, hc.ofExpr?_eq, hc.direct, hc.function_eq, hc.fnRange_eq, hc.args_le⟩
    | var => cases hchild
    | @app _ r fn args c hc hform =>
      have hfn := (he.children (c := fn) List.mem_cons_self).1
      have hwithin := within_eq_some_iff.mpr hc
      rw [Expr.Nested] at he
      rcases List.mem_cons.mp hchild with rfl | harg
      · rcases extend_names he.2.2.2.1 hchild (.inl rfl)
          (ih child hchild hnested hwithin hform hnc) .direct range with hbehind | ⟨c', hc', -⟩
        · exact .inl hbehind
        · exact .inr ⟨c', hc'⟩
      · have hlies := Expr.lies_of_mem he.2.2.2.2 harg
        exact .inl ((within_stands hfn hwithin).1.fn_start_le hlies.1 hlies.2.1 hnc)
    -- a pipe is not direct
    | pipeRight | pipeLeft => cases hdirect

/-- A part of a call stands behind the place where the function is named, or before that place if
the call is an operation, or else the function is named in the part, with fewer arguments. -/
theorem part_names {e n : Expr} (he : e.Nested place) (h : ofExpr? ctx e = some call)
    (hbare : e.form ≠ .paren) (hn : n ∈ e.nodes) (hne : n ≠ e) :
    call.fnRange.start ≤ n.range.start ∨
      (e.form = .binary ∧ n.range.stop ≤ call.fnRange.start) ∨
      ∃ c, Names ctx e call n c ∧ c.args.length < call.args.length := by
  rw [Expr.nodes_eq] at hn
  rcases List.mem_cons.mp hn with rfl | hbelow
  · exact absurd rfl hne
  rcases List.mem_flatMap.mp hbelow with ⟨child, hchild, hnc⟩
  rw [ofExpr?, within_eq_some_iff] at h
  generalize e.range = range at h
  cases h with
  | paren => exact absurd rfl hbare
  | var => cases hchild
  | @app _ r fn args c hc hform =>
    have hfn := (he.children (c := fn) List.mem_cons_self).1
    have hwithin := within_eq_some_iff.mpr hc
    rw [Expr.Nested] at he
    rcases List.mem_cons.mp hchild with rfl | harg
    · exact (extend_names he.2.2.2.1 hchild (.inl rfl) (within_names hfn hwithin hform hnc)
        .direct range).imp_right .inr
    · have hlies := Expr.lies_of_mem he.2.2.2.2 harg
      exact .inl ((within_stands hfn hwithin).1.fn_start_le hlies.1 hlies.2.1 hnc)
  -- the operand that is called holds the function, and the other one stands beside it
  | @pipeRight _ r left right c hc hform =>
    have hleft := he.left_part.1.1
    have hright := he.right_part.1.1
    have hwithin := within_eq_some_iff.mpr hc
    rw [Expr.Nested] at he
    rcases List.mem_cons.mp hchild with rfl | hchild'
    · have hstart := (within_stands hright hwithin).1.start_le
      have hstop := (hleft.nodes hnc).2.2
      exact .inr (.inl ⟨rfl, hstop.trans (he.2.2.2.1.le.trans hstart)⟩)
    · obtain rfl := List.mem_singleton.mp hchild'
      exact (extend_names (List.cons_ne_nil _ _) hchild (.inr rfl)
        (within_names hright hwithin hform hnc) .pipeRight range).imp_right .inr
  | @pipeLeft _ r left right c hc hform =>
    have hleft := he.left_part.1.1
    have hright := he.right_part.1.1
    have hwithin := within_eq_some_iff.mpr hc
    rw [Expr.Nested] at he
    rcases List.mem_cons.mp hchild with rfl | hchild'
    · exact (extend_names (List.cons_ne_nil _ _) hchild (.inr rfl)
        (within_names hleft hwithin hform hnc) .pipeLeft range).imp_right .inr
    · obtain rfl := List.mem_singleton.mp hchild'
      exact .inl ((within_stands hleft hwithin).1.fn_start_le hright he.2.2.2.1.le hnc)

end Terse.Call
