import Terse.Proofs.Text.Line
import Terse.Proofs.Tree.Node

/-!
# Nested ranges

The ranges of a tree that was read from a text are nested: every part lies in its whole, and parts
follow one another in source order. Brackets and leading words make parts smaller than their
wholes; what a form starts or ends with shares that end with it. `place` says which locations
belong to the text.
-/

namespace Terse

variable (place : Location → Prop)

/-! ## Patterns -/

namespace Pattern

mutual

/-- The ranges of a pattern are nested. -/
def Nested : Pattern → Prop
  | wild r | unit r | var r _ | literal r _ => r.Proper place
  | ctor r _ args => r.Proper place ∧ ∃ name, r.start < name ∧ NestedAll name args r.stop
  | tuple r items | list r items =>
    r.Proper place ∧ ∃ first last, r.start < first ∧ NestedAll first items last ∧ last < r.stop
  | cons r head tail =>
    r.Proper place ∧ r.start = head.range.start ∧ head.Nested ∧
      head.range.stop < tail.range.start ∧ tail.Nested ∧ tail.range.stop = r.stop
  | record r fields =>
    r.Proper place ∧ ∃ first last, r.start < first ∧
      InLine Located.range (fun f : Located String => f.range.Proper place) first fields last ∧
      last < r.stop
  | named r inner name =>
    r.Proper place ∧ r.start = inner.range.start ∧ inner.Nested ∧
      inner.range.stop < name.range.start ∧ name.range.Proper place ∧ name.range.stop = r.stop
  | paren r inner =>
    r.Proper place ∧ r.start < inner.range.start ∧ inner.Nested ∧ inner.range.stop < r.stop

/-- Nested patterns follow one another. -/
def NestedAll (start : Location) : List Pattern → Location → Prop
  | [], stop => start = stop
  | p :: ps, stop => start ≤ p.range.start ∧ p.Nested ∧ NestedAll p.range.stop ps stop

end

variable {place}

/-- Patterns are nested in a row when they are in line and each is nested. -/
theorem nestedAll_iff {start stop : Location} {ps : List Pattern} :
    NestedAll place start ps stop ↔ InLine range (Nested place) start ps stop := by
  induction ps generalizing start with
  | nil => rw [NestedAll, inLine_nil]
  | cons p ps ih => rw [NestedAll, inLine_cons, ih]

/-- The range of a nested pattern holds characters. -/
theorem Nested.proper {p : Pattern} (h : p.Nested place) : p.range.Proper place := by
  cases p <;> rw [Nested] at h <;> first | exact h | exact h.1

end Pattern

/-! ## Expressions -/

namespace Expr

mutual

/-- The ranges of an expression are nested. -/
def Nested : Expr → Prop
  | unit r | literal r _ | var r _ | operatorFn r _ | accessor r _ => r.Proper place
  | app r fn args =>
    r.Proper place ∧ r.start = fn.range.start ∧ fn.Nested ∧ args ≠ [] ∧
      NestedAll fn.range.stop args r.stop
  | binary r _ left right =>
    r.Proper place ∧ r.start = left.range.start ∧ left.Nested ∧
      left.range.stop < right.range.start ∧ right.Nested ∧ right.range.stop = r.stop
  | negate r inner =>
    r.Proper place ∧ r.start < inner.range.start ∧ inner.Nested ∧ inner.range.stop = r.stop
  | paren r inner =>
    r.Proper place ∧ r.start < inner.range.start ∧ inner.Nested ∧ inner.range.stop < r.stop
  | list r items | tuple r items =>
    r.Proper place ∧ ∃ first last, r.start < first ∧ NestedAll first items last ∧ last < r.stop
  | record r setters =>
    r.Proper place ∧ ∃ first last, r.start < first ∧ NestedSetters first setters last ∧
      last < r.stop
  | update r base setters =>
    r.Proper place ∧ r.start < base.range.start ∧ base.range.Proper place ∧
      ∃ first last, base.range.stop < first ∧ NestedSetters first setters last ∧ last < r.stop
  | access r owner field =>
    r.Proper place ∧ r.start = owner.range.start ∧ owner.Nested ∧
      owner.range.stop < field.range.start ∧ owner.range.stop < field.range.stop ∧
      field.range.stop = r.stop
  | cond r condition thenBranch elseBranch =>
    r.Proper place ∧ r.start < condition.range.start ∧ condition.Nested ∧
      condition.range.stop < thenBranch.range.start ∧ thenBranch.Nested ∧
      thenBranch.range.stop < elseBranch.range.start ∧ elseBranch.Nested ∧
      elseBranch.range.stop = r.stop
  | case r scrutinee branches =>
    r.Proper place ∧ r.start < scrutinee.range.start ∧ scrutinee.Nested ∧ branches ≠ [] ∧
      ∃ first, scrutinee.range.stop < first ∧ NestedBranches first branches r.stop
  | lambda r params body =>
    r.Proper place ∧ params ≠ [] ∧
      ∃ first last, r.start < first ∧ Pattern.NestedAll place first params last ∧
        last ≤ body.range.start ∧ body.Nested ∧ body.range.stop = r.stop

/-- Nested expressions follow one another. -/
def NestedAll (start : Location) : List Expr → Location → Prop
  | [], stop => start = stop
  | e :: es, stop => start ≤ e.range.start ∧ e.Nested ∧ NestedAll e.range.stop es stop

/-- Setters follow one another, each with its field before its nested value. -/
def NestedSetters (start : Location) : List Setter → Location → Prop
  | [], stop => start = stop
  | .mk field value :: ss, stop =>
    start ≤ field.range.start ∧
      (field.range.Proper place ∧ field.range.stop < value.range.start ∧ value.Nested) ∧
      NestedSetters value.range.stop ss stop

/-- Branches follow one another, each with its nested pattern before its nested body. -/
def NestedBranches (start : Location) : List Branch → Location → Prop
  | [], stop => start = stop
  | .mk pattern body :: bs, stop =>
    start ≤ pattern.range.start ∧
      (pattern.Nested place ∧ pattern.range.stop < body.range.start ∧ body.Nested) ∧
      NestedBranches body.range.stop bs stop

end

variable {place}

/-- Expressions are nested in a row when they are in line and each is nested. -/
theorem nestedAll_iff {start stop : Location} {es : List Expr} :
    NestedAll place start es stop ↔ InLine range (Nested place) start es stop := by
  induction es generalizing start with
  | nil => rw [NestedAll, inLine_nil]
  | cons e es ih => rw [NestedAll, inLine_cons, ih]

/-- The range of a nested expression holds characters. -/
theorem Nested.proper {e : Expr} (h : e.Nested place) : e.range.Proper place := by
  cases e <;> rw [Nested] at h <;> first | exact h | exact h.1

theorem Nested.le {e : Expr} (h : e.Nested place) : e.range.start ≤ e.range.stop := h.proper.le

end Expr

namespace Setter

/-- The field of the setter stands before its nested value. -/
def Nested (s : Setter) : Prop :=
  s.field.range.Proper place ∧ s.field.range.stop < s.value.range.start ∧ s.value.Nested place

variable {place}

theorem Nested.range_eq {s : Setter} (h : s.Nested place) :
    s.range = ⟨s.field.range.start, s.value.range.stop⟩ :=
  h.1.merge_eq h.2.2.proper h.2.1.le

theorem Nested.proper {s : Setter} (h : s.Nested place) : s.range.Proper place := by
  rw [h.range_eq]
  exact h.1.span h.2.2.proper h.2.1.le

end Setter

namespace Branch

/-- From the pattern to the end of the body. -/
def range (b : Branch) : Range := ⟨b.pattern.range.start, b.body.range.stop⟩

/-- The nested pattern of the branch stands before its nested body. -/
def Nested (b : Branch) : Prop :=
  b.pattern.Nested place ∧ b.pattern.range.stop < b.body.range.start ∧ b.body.Nested place

variable {place}

theorem Nested.proper {b : Branch} (h : b.Nested place) : b.range.Proper place :=
  h.1.proper.span h.2.2.proper h.2.1.le

end Branch

namespace Expr

variable {place}

theorem nestedSetters_iff {start stop : Location} {ss : List Setter} :
    NestedSetters place start ss stop ↔
      InLine Setter.range (Setter.Nested place) start ss stop := by
  induction ss generalizing start with
  | nil => rw [NestedSetters, inLine_nil]
  | cons s ss ih =>
    rcases s with ⟨field, value⟩
    rw [NestedSetters, inLine_cons, ih]
    constructor
    · rintro ⟨h1, h2, h3⟩
      have hs : Setter.Nested place (.mk field value) := h2
      refine ⟨?_, hs, ?_⟩ <;> rw [hs.range_eq]
      · exact h1
      · exact h3
    · rintro ⟨h1, h2, h3⟩
      rw [h2.range_eq] at h1 h3
      exact ⟨h1, h2, h3⟩

theorem nestedBranches_iff {start stop : Location} {bs : List Branch} :
    NestedBranches place start bs stop ↔
      InLine Branch.range (Branch.Nested place) start bs stop := by
  induction bs generalizing start with
  | nil => rw [NestedBranches, inLine_nil]
  | cons b bs ih =>
    rcases b with ⟨pattern, body⟩
    rw [NestedBranches, inLine_cons, ih]
    rfl

/-! ## Parts -/

/-- The nodes of expressions in a row are those of each in turn. -/
theorem nodesOfAll_eq (es : List Expr) : nodesOfAll es = es.flatMap nodes := by
  induction es with
  | nil => rw [nodesOfAll, List.flatMap_nil]
  | cons e es ih => rw [nodesOfAll, List.flatMap_cons, ih]

theorem nodesOfSetters_eq (ss : List Setter) :
    nodesOfSetters ss = (ss.map Setter.value).flatMap nodes := by
  induction ss with
  | nil => rw [nodesOfSetters, List.map_nil, List.flatMap_nil]
  | cons s ss ih =>
    rcases s with ⟨field, value⟩
    rw [nodesOfSetters, List.map_cons, List.flatMap_cons, ih, Setter.value]

theorem nodesOfBranches_eq (bs : List Branch) :
    nodesOfBranches bs = (bs.map Branch.body).flatMap nodes := by
  induction bs with
  | nil => rw [nodesOfBranches, List.map_nil, List.flatMap_nil]
  | cons b bs ih =>
    rcases b with ⟨pattern, body⟩
    rw [nodesOfBranches, List.map_cons, List.flatMap_cons, ih, Branch.body]

/-- The nodes of an expression are itself and the nodes of its parts. -/
theorem nodes_eq (e : Expr) : e.nodes = e :: e.children.flatMap nodes := by
  cases e <;> simp [nodes, children, nodesOfAll_eq, nodesOfSetters_eq, nodesOfBranches_eq]

theorem mem_nodes_self (e : Expr) : e ∈ e.nodes := by
  rw [nodes_eq]
  exact List.mem_cons_self

/-- The nodes of a direct part are nodes of the whole. -/
theorem mem_nodes_of_child {e c x : Expr} (hc : c ∈ e.children) (hx : x ∈ c.nodes) :
    x ∈ e.nodes := by
  rw [nodes_eq]
  exact List.mem_cons_of_mem e (List.mem_flatMap.mpr ⟨c, hc, hx⟩)

/-- Children are smaller than their parent. -/
theorem sizeOf_lt_of_mem_children {c e : Expr} (h : c ∈ e.children) : sizeOf c < sizeOf e := by
  have hpart := Node.sizeOf_lt_of_expr (part_mem_items.mpr h)
  simp only [Node.expr.sizeOf_spec] at hpart
  omega

/-- What passes from the parts of an expression to the expression holds of every expression. -/
theorem induction_on_children {motive : Expr → Prop}
    (step : ∀ e : Expr, (∀ c ∈ e.children, motive c) → motive e) (e : Expr) : motive e :=
  step e fun c hc =>
    have := sizeOf_lt_of_mem_children hc
    induction_on_children step c
termination_by sizeOf e

/-- The nodes of a node are nodes of the whole. -/
theorem mem_nodes_trans {e y x : Expr} (hx : x ∈ y.nodes) (hy : y ∈ e.nodes) :
    x ∈ e.nodes := by
  induction e using induction_on_children with
  | step e ih =>
    rw [nodes_eq, List.mem_cons, List.mem_flatMap] at hy
    rcases hy with rfl | ⟨c, hc, hy⟩
    · exact hx
    · exact mem_nodes_of_child hc (ih c hc hy)

/-- The expression is nested and lies between two locations. -/
def Lies (place : Location → Prop) (start stop : Location) (e : Expr) : Prop :=
  e.Nested place ∧ start ≤ e.range.start ∧ e.range.stop ≤ stop

/-- What lies between two locations lies between any two around those. -/
theorem Lies.mono {start start' stop stop' : Location} {e : Expr} (h : e.Lies place start stop)
    (hstart : start' ≤ start) (hstop : stop ≤ stop') : e.Lies place start' stop' :=
  ⟨h.1, hstart.trans h.2.1, h.2.2.trans hstop⟩

theorem lies_of_mem {start stop : Location} {es : List Expr}
    (h : NestedAll place start es stop) {e : Expr} (he : e ∈ es) : e.Lies place start stop := by
  rw [nestedAll_iff] at h
  exact ⟨h.ok_of_mem he, h.start_le (fun _ => Nested.le) he, h.le_stop (fun _ => Nested.le) he⟩

/-- The values of setters in a row stand in a row. -/
theorem NestedSetters.values {start stop : Location} {ss : List Setter}
    (h : NestedSetters place start ss stop) :
    Between range (Nested place) start (ss.map Setter.value) stop := by
  refine (nestedSetters_iff.mp h).between.shrink Setter.value fun s hs => ?_
  rw [hs.range_eq]
  exact ⟨hs.1.le.trans hs.2.1.le, hs.2.2, le_rfl⟩

/-- The bodies of branches in a row stand in a row. -/
theorem NestedBranches.bodies {start stop : Location} {bs : List Branch}
    (h : NestedBranches place start bs stop) :
    Between range (Nested place) start (bs.map Branch.body) stop :=
  (nestedBranches_iff.mp h).between.shrink Branch.body fun _ hb =>
    ⟨hb.1.proper.le.trans hb.2.1.le, hb.2.2, le_rfl⟩

/-- The operands of an operator follow one another in the operation. -/
theorem nested_operands {r : Range} {symbol : String} {left right : Expr}
    (h : (binary r symbol left right).Nested place) :
    Between range (Nested place) r.start [left, right] r.stop := by
  rw [Nested] at h
  rcases h with ⟨-, hstart, hleft, hgap, hright, hstop⟩
  rw [between_cons, between_cons, between_nil]
  exact ⟨hstart.le, hleft, hgap.le, hright, hstop.le⟩

/-- The direct parts of a nested expression follow one another in it. There is room before them or
behind them, or there are several. -/
theorem Nested.children_between {e : Expr} (h : e.Nested place) :
    ∃ first last, Between range (Nested place) first e.children last ∧ e.range.start ≤ first ∧
      last ≤ e.range.stop ∧
      (e.range.start < first ∨ last < e.range.stop ∨ 2 ≤ e.children.length) := by
  have hproper := h.proper
  have hsingle : ∀ c : Expr, c.Nested place → Between range (Nested place) c.range.start [c]
      c.range.stop := fun c hc => between_cons.mpr ⟨le_rfl, hc, between_nil.mpr le_rfl⟩
  cases e with
  | unit | literal | var | operatorFn | accessor =>
    exact ⟨_, _, between_nil.mpr le_rfl, hproper.le, le_rfl, .inl hproper.lt⟩
  | app r fn args =>
    rcases h with ⟨-, hstart, hfn, hne, hargs⟩
    have hline := (nestedAll_iff.mp hargs).between
    have htwo := List.length_pos_iff.mpr hne
    exact ⟨r.start, r.stop, between_cons.mpr ⟨hstart.le, hfn, hline⟩, le_rfl, le_rfl,
      .inr (.inr (Nat.succ_le_succ htwo))⟩
  | binary r symbol left right =>
    exact ⟨r.start, r.stop, nested_operands h, le_rfl, le_rfl, .inr (.inr le_rfl)⟩
  | negate r inner =>
    rcases h with ⟨-, hstart, hinner, hstop⟩
    exact ⟨_, _, hsingle inner hinner, hstart.le, hstop.le, .inl hstart⟩
  | paren r inner =>
    rcases h with ⟨-, hstart, hinner, hstop⟩
    exact ⟨_, _, hsingle inner hinner, hstart.le, hstop.le, .inl hstart⟩
  | list r items | tuple r items =>
    rcases h with ⟨-, first, last, hfirst, hitems, hlast⟩
    exact ⟨first, last, (nestedAll_iff.mp hitems).between, hfirst.le, hlast.le, .inl hfirst⟩
  | record r setters =>
    rcases h with ⟨-, first, last, hfirst, hsetters, hlast⟩
    exact ⟨first, last, hsetters.values, hfirst.le, hlast.le, .inl hfirst⟩
  | update r base setters =>
    rcases h with ⟨-, hstart, hbase, first, last, hgap, hsetters, hlast⟩
    have hfirst := hstart.trans (hbase.lt.trans hgap)
    exact ⟨first, last, hsetters.values, hfirst.le, hlast.le, .inl hfirst⟩
  | access r owner field =>
    rcases h with ⟨-, hstart, howner, -, hgap, hstop⟩
    have hlast := hgap.trans_eq hstop
    exact ⟨_, _, hsingle owner howner, hstart.le, hlast.le, .inr (.inl hlast)⟩
  | cond r condition thenBranch elseBranch =>
    rcases h with ⟨-, hstart, hcond, hthen, hthen', helse, helse', hstop⟩
    have hline := between_cons.mpr ⟨helse.le, helse', between_nil.mpr hstop.le⟩
    exact ⟨_, _, between_cons.mpr ⟨le_rfl, hcond, between_cons.mpr ⟨hthen.le, hthen', hline⟩⟩,
      hstart.le, le_rfl, .inl hstart⟩
  | case r scrutinee branches =>
    rcases h with ⟨-, hstart, hscrutinee, -, first, hfirst, hbranches⟩
    have hline := hbranches.bodies.mono hfirst.le le_rfl
    exact ⟨_, _, between_cons.mpr ⟨le_rfl, hscrutinee, hline⟩, hstart.le, le_rfl, .inl hstart⟩
  | lambda r params body =>
    rcases h with ⟨-, -, first, last, hfirst, hparams, hlast, hbody, hstop⟩
    have hle := InLine.le (fun _ h => h.proper.le) (Pattern.nestedAll_iff.mp hparams)
    have hstart := hfirst.trans_le (hle.trans hlast)
    exact ⟨_, _, hsingle body hbody, hstart.le, hstop.le, .inl hstart⟩

/-- The expression is nested and lies in a range without filling it. -/
def PartOf (place : Location → Prop) (whole : Range) (e : Expr) : Prop :=
  e.Lies place whole.start whole.stop ∧ (whole.start < e.range.start ∨ e.range.stop < whole.stop)

/-- What lies in a part is a part. -/
theorem PartOf.of_lies {whole : Range} {e x : Expr} (h : e.PartOf place whole)
    (hx : x.Lies place e.range.start e.range.stop) : x.PartOf place whole := by
  rcases h with ⟨⟨hnested, hstart, hstop⟩, hstrict⟩
  refine ⟨hx.mono hstart hstop, ?_⟩
  rcases hstrict with hstrict | hstrict
  · exact .inl (hstrict.trans_le hx.2.1)
  · exact .inr (hx.2.2.trans_lt hstrict)

/-- The direct parts of a nested expression are nested, and none of them fills it. -/
theorem Nested.children_part {e c : Expr} (h : e.Nested place) (hc : c ∈ e.children) :
    c.PartOf place e.range := by
  have hle : ∀ x : Expr, x.Nested place → x.range.start ≤ x.range.stop := fun _ => Nested.le
  rcases h.children_between with ⟨first, last, hline, hfirst, hlast, hroom⟩
  have hstart := hline.start_le hle hc
  have hstop := hline.le_stop hle hc
  refine ⟨⟨hline.ok_of_mem hc, hfirst.trans hstart, hstop.trans hlast⟩, ?_⟩
  rcases hroom with hlt | hlt | htwo
  · exact .inl (hlt.trans_le hstart)
  · exact .inr (hstop.trans_lt hlt)
  · -- the first part leaves out the second one, and all others leave out the first one
    rcases hparts : e.children with _ | ⟨x, _ | ⟨y, parts⟩⟩ <;> rw [hparts] at hc hline htwo
    · cases hc
    · simp at htwo
    rcases between_cons.mp hline with ⟨hx, hxok, hrest⟩
    rcases List.mem_cons.mp hc with rfl | hc
    · have hy := between_cons.mp hrest
      have hystop := hrest.le_stop hle (List.mem_cons_self : y ∈ y :: parts)
      exact .inr (hy.1.trans_lt (hy.2.1.proper.lt.trans_le (hystop.trans hlast)))
    · exact .inl ((hfirst.trans hx).trans_lt (hxok.proper.lt.trans_le (hrest.start_le hle hc)))

/-- The direct parts of a nested expression stand one behind the other. -/
theorem Nested.children_pairwise {e : Expr} (h : e.Nested place) :
    e.children.Pairwise fun a b => a.range.stop ≤ b.range.start := by
  rcases h.children_between with ⟨first, last, hline, -⟩
  exact hline.pairwise fun _ => Nested.le

/-- The children of a nested node lie inside it. -/
theorem Nested.children {e c : Expr} (h : e.Nested place) (hc : c ∈ e.children) :
    c.Lies place e.range.start e.range.stop := (h.children_part hc).1

/-- Every node of a nested expression is nested and lies in the expression. -/
theorem Nested.nodes {e x : Expr} (h : e.Nested place) (hx : x ∈ e.nodes) :
    x.Lies place e.range.start e.range.stop := by
  induction e using induction_on_children with
  | step e ih =>
    rw [nodes_eq] at hx
    rcases List.mem_cons.mp hx with rfl | hx
    · exact ⟨h, le_rfl, le_rfl⟩
    · rcases List.mem_flatMap.mp hx with ⟨c, hc, hx⟩
      have hlies := h.children hc
      exact (ih c hc hlies.1 hx).mono hlies.2.1 hlies.2.2

/-- Parentheses around an expression only make it larger. -/
theorem Lies.stripParens {start stop : Location} {e : Expr} (h : e.Lies place start stop) :
    e.stripParens.Lies place start stop := by
  induction e using induction_on_children with
  | step e ih =>
    unfold Expr.stripParens
    split
    · rename_i r inner
      have hinner := h.1.children (List.mem_singleton.mpr rfl : inner ∈ (paren r inner).children)
      exact ih inner (List.mem_singleton.mpr rfl) (hinner.mono h.2.1 h.2.2)
    · exact h

theorem Nested.left_part {r : Range} {symbol : String} {left right : Expr}
    (h : (binary r symbol left right).Nested place) : left.PartOf place r :=
  h.children_part List.mem_cons_self

theorem Nested.right_part {r : Range} {symbol : String} {left right : Expr}
    (h : (binary r symbol left right).Nested place) : right.PartOf place r :=
  h.children_part (by simp [Expr.children])

/-- What stands in the parentheses of a part is a part. -/
theorem PartOf.stripParens {whole : Range} {e : Expr} (h : e.PartOf place whole) :
    e.stripParens.PartOf place whole :=
  h.of_lies (Lies.stripParens ⟨h.1.1, le_rfl, le_rfl⟩)

end Expr

end Terse
