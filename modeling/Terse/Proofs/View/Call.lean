import Mathlib.Tactic.Order
import Terse.Proofs.Edit.Fix
import Terse.Proofs.Tree.Erasure
import Terse.Proofs.Tree.Nesting
import Terse.View.Call
import Terse.View.Literal

/-!
# Where the parts of a call stand

A call may be written over several nodes: with parentheses around a function and some of its
arguments, or with a pipe. Its function and its arguments still stand inside the outermost node,
none of them at the place of another, and all arguments but a piped one follow the function.
-/

namespace Terse

variable {place : Location → Prop}

namespace Call

theorem within_stripParens (ctx : Context) (range : Range) (e : Expr) :
    within ctx range e.stripParens = within ctx range e :=
  Expr.apply_stripParens (fun _ _ => by rw [within]) e

/-- The arguments that are written behind the function: all but a piped one. -/
def behind (call : Call) : List Expr :=
  match call.form with
  | .direct => call.args
  | .pipeRight | .pipeLeft => call.args.dropLast

/-- The function and the arguments of the call stand between two locations. -/
structure Stands (place : Location → Prop) (start stop : Location) (call : Call) : Prop where
  fn : call.fnRange.Proper place
  start_le : start ≤ call.fnRange.start
  behind : Between Expr.range (Expr.Nested place) call.fnRange.stop call.behind stop
  args : ∀ a ∈ call.args, a.Lies place start stop ∧
    (call.fnRange.stop ≤ a.range.start ∨ a.range.stop ≤ call.fnRange.start)

theorem Stands.mono {start start' stop stop' : Location} {call : Call}
    (h : call.Stands place start stop) (hstart : start' ≤ start) (hstop : stop ≤ stop') :
    call.Stands place start' stop' := by
  refine ⟨h.fn, hstart.trans h.start_le, h.behind.mono le_rfl hstop, ?_⟩
  intro a ha
  rcases h.args a ha with ⟨hlies, hside⟩
  exact ⟨hlies.mono hstart hstop, hside⟩

theorem Stands.fn_stop_le {start stop : Location} {call : Call}
    (h : call.Stands place start stop) : call.fnRange.stop ≤ stop :=
  h.behind.le fun _ => Expr.Nested.le

theorem extend_eq_some {call c : Call} {more : List Expr} {form : CallForm} {range : Range}
    (h : call.extend more form range = some c) :
    call.form = .direct ∧
      c = { call with args := call.args ++ more, form := form, range := range } := by
  unfold extend at h
  split at h
  · exact ⟨‹_›, by simpa using h.symm⟩
  · cases h

/-- The call is read off the expression for a range: through parentheses, off a reference, or off a
direct call that is given further arguments, behind it or through a pipe. -/
inductive ReadOff (ctx : Context) : Range → Expr → Call → Prop where
  | paren {range r : Range} {inner : Expr} {call : Call} (h : ReadOff ctx range inner call) :
      ReadOff ctx range (.paren r inner) call
  | var {range r : Range} {name : QualifiedName} {function : ResolvedName}
      (h : ctx.resolve name = some function) :
      ReadOff ctx range (.var r name) ⟨function, r, [], .direct, range⟩
  | app {range r : Range} {fn : Expr} {args : List Expr} {c : Call}
      (h : ReadOff ctx fn.range fn c) (hdirect : c.form = .direct) :
      ReadOff ctx range (.app r fn args)
        { c with args := c.args ++ args, form := .direct, range := range }
  | pipeRight {range r : Range} {left right : Expr} {c : Call}
      (h : ReadOff ctx right.range right c) (hdirect : c.form = .direct) :
      ReadOff ctx range (.binary r "|>" left right)
        { c with args := c.args ++ [left], form := .pipeRight, range := range }
  | pipeLeft {range r : Range} {left right : Expr} {c : Call}
      (h : ReadOff ctx left.range left c) (hdirect : c.form = .direct) :
      ReadOff ctx range (.binary r "<|" left right)
        { c with args := c.args ++ [right], form := .pipeLeft, range := range }

theorem within_eq_some_iff {ctx : Context} {range : Range} {e : Expr} {call : Call} :
    within ctx range e = some call ↔ ReadOff ctx range e call := by
  constructor
  · intro h
    fun_induction within ctx range e generalizing call with
    | case1 range r inner ih => exact .paren (ih h)
    | case2 range r name =>
      rcases Option.map_eq_some_iff.mp h with ⟨function, hfunction, rfl⟩
      exact .var hfunction
    | case3 range r fn args ih =>
      rcases Option.bind_eq_some_iff.mp h with ⟨c, hc, hextend⟩
      rcases extend_eq_some hextend with ⟨hdirect, rfl⟩
      exact .app (ih hc) hdirect
    | case4 range r symbol left right hsymbol ih =>
      rcases Option.bind_eq_some_iff.mp h with ⟨c, hc, hextend⟩
      rcases extend_eq_some hextend with ⟨hdirect, rfl⟩
      obtain rfl := eq_of_beq hsymbol
      exact .pipeRight (ih hc) hdirect
    | case5 range r symbol left right _ hsymbol ih =>
      rcases Option.bind_eq_some_iff.mp h with ⟨c, hc, hextend⟩
      rcases extend_eq_some hextend with ⟨hdirect, rfl⟩
      obtain rfl := eq_of_beq hsymbol
      exact .pipeLeft (ih hc) hdirect
    | case6 | case7 => cases h
  · intro h
    induction h with
    | paren _ ih =>
      rw [within]
      exact ih
    | var h => simp [within, h]
    | app _ hdirect ih | pipeRight _ hdirect ih | pipeLeft _ hdirect ih =>
      simp [within, ih, extend, hdirect]

/-- A direct call with one more argument on either side of it. -/
theorem stands_piped {start stop inner outer : Location} {call : Call} {e : Expr} {form : CallForm}
    {range : Range} (h : call.Stands place inner outer) (hdirect : call.form = .direct)
    (hstart : start ≤ inner) (hstop : outer ≤ stop) (he : e.Lies place start stop)
    (hside : outer ≤ e.range.start ∨ e.range.stop ≤ inner) (hform : form ≠ .direct) :
    Stands place start stop
      { call with args := call.args ++ [e], form := form, range := range } := by
  have hbehind := h.behind.mono le_rfl hstop
  rw [behind, hdirect] at hbehind
  refine ⟨h.fn, hstart.trans h.start_le, ?_, ?_⟩
  · cases form with
    | direct => exact absurd rfl hform
    | pipeRight | pipeLeft => simpa [Call.behind] using hbehind
  · intro a ha
    rcases List.mem_append.mp ha with ha | ha
    · rcases h.args a ha with ⟨hlies, hside⟩
      exact ⟨hlies.mono hstart hstop, hside⟩
    · rcases List.mem_singleton.mp ha with rfl
      exact ⟨he, hside.imp h.fn_stop_le.trans (·.trans h.start_le)⟩

/-- The parts of a call stand in the node that it was read off. -/
theorem within_stands {ctx : Context} {range : Range} {e : Expr} {call : Call}
    (he : e.Nested place) (h : within ctx range e = some call) :
    call.Stands place e.range.start e.range.stop ∧ call.range = range := by
  rw [within_eq_some_iff] at h
  induction h with
  | @paren range r inner call _ ih =>
    rcases he.children (c := inner) (List.mem_singleton.mpr rfl) with ⟨hnested, hstart, hstop⟩
    rcases ih hnested with ⟨hstands, hrange⟩
    exact ⟨hstands.mono hstart hstop, hrange⟩
  | var => exact ⟨⟨he, le_rfl, between_nil.mpr le_rfl, by simp⟩, rfl⟩
  | @app range r fn args c _ hdirect ih =>
    -- the further arguments follow those of the function
    rcases he.children (c := fn) List.mem_cons_self with ⟨hnested, hstart, hstop⟩
    have hstands := (ih hnested).1
    rw [Expr.Nested] at he
    rcases he with ⟨-, -, -, -, hargs⟩
    have hbehind := hstands.behind
    rw [behind, hdirect] at hbehind
    have hle := hstands.fn_stop_le
    refine ⟨⟨hstands.fn, hstart.trans hstands.start_le,
      hbehind.append (Expr.nestedAll_iff.mp hargs).between, ?_⟩, rfl⟩
    intro a ha
    rcases List.mem_append.mp ha with ha | ha
    · rcases hstands.args a ha with ⟨hlies, hside⟩
      exact ⟨hlies.mono hstart hstop, hside⟩
    · have hlies := Expr.lies_of_mem hargs ha
      have hfn := hnested.le
      exact ⟨hlies.mono (by order) le_rfl, .inl (hle.trans hlies.2.1)⟩
  | @pipeRight range r left right c _ hdirect ih =>
    have hl := he.children (c := left) List.mem_cons_self
    have hr := he.children (c := right) (by simp [Expr.children])
    rw [Expr.Nested] at he
    have hgap := he.2.2.2.1
    exact ⟨stands_piped (ih hr.1).1 hdirect hr.2.1 hr.2.2 hl (.inr hgap.le) (by simp), rfl⟩
  | @pipeLeft range r left right c _ hdirect ih =>
    have hl := he.children (c := left) List.mem_cons_self
    have hr := he.children (c := right) (by simp [Expr.children])
    rw [Expr.Nested] at he
    have hgap := he.2.2.2.1
    exact ⟨stands_piped (ih hl.1).1 hdirect hl.2.1 hl.2.2 hr (.inl hgap.le) (by simp), rfl⟩

/-- An argument ends before any later one, unless that one is piped into the call from before. -/
theorem within_args_pairwise {ctx : Context} {range : Range} {e : Expr} {call : Call}
    (he : e.Nested place) (h : within ctx range e = some call) :
    call.args.Pairwise fun a b =>
      a.range.stop ≤ b.range.start ∨ b.range.stop ≤ call.fnRange.start := by
  rw [within_eq_some_iff] at h
  induction h with
  | @paren range r inner call _ ih => exact ih (he.children (List.mem_singleton.mpr rfl)).1
  | var => exact List.Pairwise.nil
  | @app range r fn args c hc _ ih =>
    have hfn := (he.children (c := fn) List.mem_cons_self).1
    have hstands := (within_stands hfn (within_eq_some_iff.mpr hc)).1
    rw [Expr.Nested] at he
    have hargs := Expr.nestedAll_iff.mp he.2.2.2.2
    refine List.pairwise_append.mpr ⟨ih hfn,
      (hargs.pairwise fun _ => Expr.Nested.le).imp .inl, fun a ha b hb => .inl ?_⟩
    -- the function ends between its arguments and the further ones
    exact (hstands.args a ha).1.2.2.trans (hargs.start_le (fun _ => Expr.Nested.le) hb)
  | @pipeRight range r left right c hc _ ih =>
    have hright := he.right_part.1.1
    have hstands := (within_stands hright (within_eq_some_iff.mpr hc)).1
    rw [Expr.Nested] at he
    refine List.pairwise_append.mpr ⟨ih hright, List.pairwise_singleton _ _,
      fun a ha b hb => .inr ?_⟩
    rcases List.mem_singleton.mp hb with rfl
    exact he.2.2.2.1.le.trans hstands.start_le
  | @pipeLeft range r left right c hc _ ih =>
    have hleft := he.left_part.1.1
    have hstands := (within_stands hleft (within_eq_some_iff.mpr hc)).1
    rw [Expr.Nested] at he
    refine List.pairwise_append.mpr ⟨ih hleft, List.pairwise_singleton _ _,
      fun a ha b hb => .inl ?_⟩
    rcases List.mem_singleton.mp hb with rfl
    exact (hstands.args a ha).1.2.2.trans he.2.2.2.1.le

/-! ## Calls that fill their range -/

/-- The function and the arguments of the call stand in the range of the call. -/
structure Fills (place : Location → Prop) (call : Call) : Prop where
  range : call.range.Proper place
  stands : call.Stands place call.range.start call.range.stop

theorem ofExpr?_fills {ctx : Context} {e : Expr} {call : Call} (he : e.Nested place)
    (h : ofExpr? ctx e = some call) : call.Fills place ∧ call.range = e.range := by
  rcases within_stands he h with ⟨hstands, hrange⟩
  rw [← hrange] at hstands
  exact ⟨⟨hrange ▸ he.proper, hstands⟩, hrange⟩

namespace Fills

variable {call : Call} (h : call.Fills place)
include h

theorem fn_fits : call.fnRange.Fits place call.range :=
  h.stands.fn.fits h.stands.start_le h.stands.fn_stop_le

theorem arg_lies {a : Expr} (ha : a ∈ call.args) :
    a.Lies place call.range.start call.range.stop := (h.stands.args a ha).1

/-- The function takes some of the range, so no argument fills it. -/
theorem arg_part {a : Expr} (ha : a ∈ call.args) : a.PartOf place call.range := by
  rcases h.stands.args a ha with ⟨hlies, hside⟩
  have hlt := h.stands.fn.lt
  have hstart := h.stands.start_le
  have hstop := h.stands.fn_stop_le
  refine ⟨hlies, ?_⟩
  rcases hside with hside | hside
  · exact .inl (by order)
  · exact .inr (by order)

/-- An argument written behind the function ends in the range and starts after the function. -/
theorem behind_lies {a : Expr} (ha : a ∈ call.behind) :
    a.Lies place call.fnRange.stop call.range.stop := by
  have hle : ∀ e : Expr, e.Nested place → e.range.start ≤ e.range.stop := fun _ => Expr.Nested.le
  exact ⟨h.stands.behind.ok_of_mem ha, h.stands.behind.start_le hle ha,
    h.stands.behind.le_stop hle ha⟩

/-- From the function to the end of an argument written behind it. -/
theorem through_behind_fits {a : Expr} (ha : a ∈ call.behind) :
    Range.Fits place ⟨call.fnRange.start, a.range.stop⟩ call.range := by
  rcases h.behind_lies ha with ⟨hnested, hstart, hstop⟩
  have hfn := h.stands.fn.lt
  have hlt := hnested.proper.lt
  exact Range.fits_between (by order) h.stands.start_le hstop h.stands.fn.start
    hnested.proper.stop

end Fills

/-- Arguments with a further one after them are written behind the function. -/
theorem behind_of_append {call : Call} {before more : List Expr}
    (h : call.args = before ++ more) (hmore : more ≠ []) :
    ∃ rest, call.behind = before ++ rest := by
  unfold behind
  rw [h]
  cases call.form with
  | direct => exact ⟨more, rfl⟩
  | pipeRight | pipeLeft => exact ⟨more.dropLast, List.dropLast_append_of_ne_nil hmore⟩

theorem mem_args_of_arg? {call : Call} {index : Nat} {a : Expr} (h : call.arg? index = some a) :
    a ∈ call.args := List.mem_of_getElem? h

theorem mem_behind_of_adjacent {call : Call} {index : Nat} {a : Expr}
    (ha : call.arg? index = some a) (h : call.argIsAdjacent index = true) : a ∈ call.behind := by
  unfold arg? at ha
  unfold argIsAdjacent at h
  unfold behind
  cases hform : call.form with
  | direct => exact List.mem_of_getElem? ha
  | pipeRight | pipeLeft =>
    rw [hform] at h
    have hindex : index + 1 < call.args.length := by simpa using h
    have hbehind : call.args.dropLast[index]? = some a := by
      rw [List.getElem?_dropLast, if_pos (by omega)]
      exact ha
    exact List.mem_of_getElem? hbehind

end Call

/-! ## Nodes of arguments -/

namespace Expr

/-- What is a node of an expression without its parentheses is one of the expression. -/
theorem mem_nodes_of_stripParens {e x : Expr} (hx : x ∈ e.stripParens.nodes) : x ∈ e.nodes := by
  induction e using induction_on_children with
  | step e ih =>
    unfold stripParens at hx
    split at hx
    · rename_i r inner
      have hchild : inner ∈ (paren r inner).children := List.mem_singleton.mpr rfl
      exact mem_nodes_of_child hchild (ih inner hchild hx)
    · exact hx

theorem mem_nodes_of_list? {e x : Expr} {elements : List Expr} (h : e.list? = some elements)
    (hx : x ∈ elements) : x ∈ e.nodes := by
  apply mem_nodes_of_stripParens
  unfold list? at h
  split at h
  · rename_i r items heq
    cases h
    rw [heq]
    exact mem_nodes_of_child hx x.mem_nodes_self
  · cases h

end Expr

/-- The arguments of a call are nodes of the expression that it was read off. -/
theorem Call.mem_nodes_of_within {ctx : Context} {range : Range} {e x : Expr} {call : Call}
    (h : within ctx range e = some call) (hx : x ∈ call.args) : x ∈ e.nodes := by
  rw [within_eq_some_iff] at h
  induction h with
  | paren _ ih => exact Expr.mem_nodes_of_child (List.mem_singleton.mpr rfl) (ih hx)
  | var => cases hx
  | app _ _ ih =>
    rcases List.mem_append.mp hx with hx | hx
    · exact Expr.mem_nodes_of_child List.mem_cons_self (ih hx)
    · exact Expr.mem_nodes_of_child (List.mem_cons_of_mem _ hx) x.mem_nodes_self
  | pipeRight _ _ ih =>
    -- the piped operand is the last argument, the others are in the operand that is called
    rcases List.mem_append.mp hx with hx | hx
    · exact Expr.mem_nodes_of_child (by simp [Expr.children]) (ih hx)
    · rcases List.mem_singleton.mp hx with rfl
      exact Expr.mem_nodes_of_child List.mem_cons_self x.mem_nodes_self
  | pipeLeft _ _ ih =>
    rcases List.mem_append.mp hx with hx | hx
    · exact Expr.mem_nodes_of_child List.mem_cons_self (ih hx)
    · rcases List.mem_singleton.mp hx with rfl
      exact Expr.mem_nodes_of_child (by simp [Expr.children]) x.mem_nodes_self

/-- A node of a call is one of an argument, or it holds the name of the function. -/
theorem Call.mem_args_or_holds {ctx : Context} {range : Range} {e n : Expr} {call : Call}
    (he : e.Nested place) (h : within ctx range e = some call) (hn : n ∈ e.nodes) :
    (∃ a ∈ call.args, n ∈ a.nodes) ∨
      n.range.start ≤ call.fnRange.start ∧ call.fnRange.stop ≤ n.range.stop := by
  induction e using Expr.induction_on_children generalizing range call with
  | step e ih =>
    have hstands := (within_stands he h).1
    rw [Expr.nodes_eq] at hn
    rcases List.mem_cons.mp hn with rfl | hbelow
    · exact .inr ⟨hstands.start_le, hstands.fn_stop_le⟩
    rcases List.mem_flatMap.mp hbelow with ⟨child, hchild, hin⟩
    clear hn hbelow
    have hnested := (he.children hchild).1
    cases within_eq_some_iff.mp h with
    | paren hc =>
      rcases List.mem_singleton.mp hchild with rfl
      exact ih child hchild hnested (within_eq_some_iff.mpr hc) hin
    | var => cases hchild
    | @app _ r fn args c hc =>
      rcases List.mem_cons.mp hchild with rfl | hmem
      · exact (ih child hchild hnested (within_eq_some_iff.mpr hc) hin).imp_left fun ⟨a, ha, hna⟩ =>
          ⟨a, List.mem_append_left args ha, hna⟩
      · exact .inl ⟨child, List.mem_append_right c.args hmem, hin⟩
    -- the piped operand is an argument, the other operand is the call
    | @pipeRight _ r left right c hc =>
      rcases List.mem_cons.mp hchild with rfl | hmem
      · exact .inl ⟨child, List.mem_append_right c.args List.mem_cons_self, hin⟩
      · rcases List.mem_singleton.mp hmem with rfl
        exact (ih child hchild hnested (within_eq_some_iff.mpr hc) hin).imp_left fun ⟨a, ha, hna⟩ =>
          ⟨a, List.mem_append_left [left] ha, hna⟩
    | @pipeLeft _ r left right c hc =>
      rcases List.mem_cons.mp hchild with rfl | hmem
      · exact (ih child hchild hnested (within_eq_some_iff.mpr hc) hin).imp_left fun ⟨a, ha, hna⟩ =>
          ⟨a, List.mem_append_left [right] ha, hna⟩
      · rcases List.mem_singleton.mp hmem with rfl
        exact .inl ⟨child, List.mem_append_right c.args List.mem_cons_self, hin⟩

/-- An expression has this argument if it is a call of the function with nothing else. -/
theorem Context.argOfCall?_eq_some_iff {ctx : Context} {e a : Expr} {path : ModuleName}
    {name : String} : ctx.argOfCall? e path name = some a ↔
      ∃ call, Call.ofExpr? ctx e = some call ∧ call.isOf path name = true ∧ call.args = [a] := by
  unfold argOfCall? argsOfCall?
  cases Call.ofExpr? ctx e with
  | none => simp
  | some call =>
    by_cases hof : call.isOf path name = true
    · rcases hargs : call.args with _ | ⟨b, _ | ⟨c, more⟩⟩ <;> simp [hof, hargs]
    · simp [hof]

theorem Context.mem_nodes_of_argOfCall? {ctx : Context} {e a : Expr} {path : ModuleName}
    {name : String} (h : ctx.argOfCall? e path name = some a) : a ∈ e.nodes := by
  rcases argOfCall?_eq_some_iff.mp h with ⟨call, hcall, -, hargs⟩
  exact Call.mem_nodes_of_within hcall (hargs ▸ List.mem_singleton_self a)

/-! ## Parts of arguments -/

theorem Context.argOfCall?_lies {ctx : Context} {e a : Expr} {path : ModuleName} {name : String}
    (he : e.Nested place) (h : ctx.argOfCall? e path name = some a) :
    a.Lies place e.range.start e.range.stop :=
  he.nodes (mem_nodes_of_argOfCall? h)

/-- The elements of a list stand between its brackets. -/
theorem Expr.list?_between {e : Expr} {elements : List Expr} (he : e.Nested place)
    (h : e.list? = some elements) :
    ∃ first last, e.range.start < first ∧
      InLine Expr.range (Expr.Nested place) first elements last ∧ last < e.range.stop := by
  rcases Expr.Lies.stripParens ⟨he, le_rfl, le_rfl⟩ with ⟨hnested, hstart, hstop⟩
  unfold Expr.list? at h
  split at h
  · rename_i r items heq
    cases h
    rw [heq] at hnested hstart hstop
    rw [Expr.Nested] at hnested
    rcases hnested with ⟨-, first, last, hfirst, hitems, hlast⟩
    exact ⟨first, last, hstart.trans_lt hfirst, Expr.nestedAll_iff.mp hitems,
      hlast.trans_le hstop⟩
  · cases h

end Terse
