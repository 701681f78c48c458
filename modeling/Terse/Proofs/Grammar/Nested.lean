import Terse.Proofs.Grammar.Standing
import Terse.Proofs.Tree.Nesting

/-!
# What stands among tokens is nested

A node is written with tokens that follow one another, so its items do as well: each starts no
earlier than the one before it ends. The forms of the tree only say which items there are, and with
that the nested ranges of a tree follow from the tokens it is written with.
-/

namespace Terse

open Item (token part commas)

variable {place : Location → Prop}

/-- The ranges of a node are nested. -/
def Node.Nested (place : Location → Prop) : Node → Prop
  | expr e => e.Nested place
  | pattern p => p.Nested place
  | name n | field n => n.range.Proper place

/-- The node starts no earlier than the location. Before a field there is a point as well. -/
def Node.IsBehind (start : Location) : Node → Prop
  | field f => start < f.range.start
  | n => start ≤ n.range.start

/-- The items follow one another from a location on, the parts among them are nested, and the last
one ends at the second location. A token of its own takes up room. -/
def Laid (place : Location → Prop) (start : Location) : List Item → Location → Prop
  | [], stop => start = stop
  | .mark (.must _) :: items, stop => ∃ middle, start < middle ∧ Laid place middle items stop
  | .mark (.may _) :: items, stop => ∃ middle, start ≤ middle ∧ Laid place middle items stop
  | .part n :: items, stop =>
    n.IsBehind start ∧ n.Nested place ∧ Laid place n.range.stop items stop

/-! ## From tokens to items -/

/-- Where the last token ends, or the location itself where there is no token. -/
def reach (start : Location) (ts : List Token) : Location := ts.foldl (fun _ t => t.range.stop) start

theorem reach_append (start : Location) (ts us : List Token) :
    reach start (ts ++ us) = reach (reach start ts) us := List.foldl_append

/-- Tokens reach as far as their extent. -/
theorem reach_eq (start : Location) {ts : List Token} (hne : ts ≠ []) :
    reach start ts = (extent ts).stop := by
  rcases List.eq_nil_or_concat ts with rfl | ⟨init, t, rfl⟩
  · exact absurd rfl hne
  · simp [reach, extent]

namespace Node

/-- The range of a node lies in the range of its tokens, and it is proper. -/
theorem Stands.range_within {n : Node} {ts : List Token} (h : n.Stands ts) (hts : Tidy place ts) :
    n.range.Proper place ∧ (extent ts).start ≤ n.range.start ∧
      n.range.stop ≤ (extent ts).stop := by
  by_cases hfield : ∃ f, n = field f
  · rcases hfield with ⟨f, rfl⟩
    rcases h.1.2 with ⟨t, rfl, hrange⟩
    rcases spelled_token.mp h.2 with ⟨t', rest, heq, hkind, -⟩
    cases heq
    have hsound := hts.head.field _ hkind
    rw [← hrange] at hsound
    refine ⟨hsound, ?_, ?_⟩
    · rw [range, hrange]
      exact (Location.lt_after _ _).le
    · rw [range, hrange]
      exact le_rfl
  · have hrange := h.range_eq fun f hf => hfield ⟨f, hf⟩
    rw [hrange]
    exact ⟨hts.extent_proper h.ne_nil, le_rfl, le_rfl⟩

/-- A node ends where its last token does. -/
theorem Stands.range_stop {n : Node} {ts : List Token} (h : n.Stands ts) :
    n.range.stop = (extent ts).stop := by
  cases n with
  | field f =>
    rcases h.1.2 with ⟨t, rfl, hrange⟩
    rw [range, hrange]
    rfl
  | _ => rw [h.range_eq (by simp)]

/-- A node that starts with a part starts where the part does. -/
theorem Stands.start_eq_of_head {n p : Node} {ts : List Token} {rest : List Item}
    (h : n.Stands ts) (hitems : n.items = part p :: rest) (hfield : ∀ f, p ≠ field f) :
    p.range.start = n.range.start := by
  have hspelled := h.2
  rw [hitems] at hspelled
  obtain ⟨own, rest, rfl, hp, -⟩ := spelled_part.mp hspelled
  have hp : p.Stands own := hp
  have hn : ∀ f, n ≠ field f := by
    rintro f rfl
    cases hitems
  rw [h.range_eq hn, hp.range_eq hfield]
  rcases List.exists_cons_of_ne_nil hp.ne_nil with ⟨t, own, rfl⟩
  rfl

end Node

/-- A node that is written with tokens starts no earlier than they do. -/
theorem Node.Stands.isBehind {n : Node} {start : Location} {ts : List Token} (h : n.Stands ts)
    (hstart : ∀ t ∈ ts, start ≤ t.range.start) : n.IsBehind start := by
  cases n with
  | field f =>
    rcases h.1.2 with ⟨t, rfl, hrange⟩
    rw [IsBehind, hrange]
    exact (hstart t (List.mem_singleton_self t)).trans_lt (Location.lt_after _ _)
  | _ =>
    rcases exists_extent_start h.ne_nil with ⟨t, ht, heq⟩
    exact (hstart t ht).trans_eq (heq.symm.trans (congrArg _ (h.range_eq (by simp)).symm))

/-- Items that are written with tokens follow one another like the tokens. -/
theorem laid_of_spelled {items : List Item} {start : Location} {ts : List Token}
    (h : Spelled Node.Sits items ts) (hts : Tidy place ts) (hstart : ∀ t ∈ ts, start ≤ t.range.start)
    (hparts : ∀ p, part p ∈ items → ∀ own, p.Stands own → Tidy place own → p.Nested place) :
    Laid place start items (reach start ts) := by
  induction items generalizing start ts with
  | nil =>
    obtain rfl := spelled_nil.mp h
    rfl
  | cons i items ih =>
    have hmore := fun p hp => hparts p (List.mem_cons_of_mem i hp)
    cases h with
    | token hk h =>
      have hlt := (hstart _ List.mem_cons_self).trans_lt hts.head.proper.lt
      exact ⟨_, hlt, ih h hts.tail (fun u => List.rel_of_pairwise_cons hts.inOrder) hmore⟩
    | absent h => exact ⟨start, le_rfl, ih h hts hstart hmore⟩
    | present hk h =>
      have hle := (hstart _ List.mem_cons_self).trans hts.head.proper.le
      exact ⟨_, hle, ih h hts.tail (fun u => List.rel_of_pairwise_cons hts.inOrder) hmore⟩
    | @part p _ own rest hok hown h =>
      have hp : p.Stands own := ⟨hok, hown⟩
      have hnested := hparts p List.mem_cons_self own hp hts.left
      have hbehind := hp.isBehind fun t ht => hstart t (List.mem_append_left rest ht)
      -- the tokens of a part come before those behind it, so the part ends before they start
      have hlater : ∀ u ∈ rest, p.range.stop ≤ u.range.start := by
        intro u hu
        rw [hp.range_stop]
        exact hts.extent_le hp.ne_nil (by simpa using hu) (List.cons_ne_nil u [])
      rw [reach_append, reach_eq start hp.ne_nil, ← hp.range_stop]
      exact ⟨hbehind, hnested, ih h hts.right hlater hmore⟩

/-! ## Items in a row -/

section

variable {α : Type} {range : α → Range} {ok : α → Prop} {items : α → List Item}
  {start stop : Location}

/-- Items that are laid out together are laid out in two rows that meet. -/
theorem Laid.of_append {front more : List Item} (h : Laid place start (front ++ more) stop) :
    ∃ middle, Laid place start front middle ∧ Laid place middle more stop := by
  induction front generalizing start with
  | nil => exact ⟨start, rfl, h⟩
  | cons i front ih =>
    rcases i with (_ | _) | p
    · rcases h with ⟨first, hlt, h⟩
      rcases ih h with ⟨middle, hfront, hmore⟩
      exact ⟨middle, ⟨first, hlt, hfront⟩, hmore⟩
    · rcases h with ⟨first, hle, h⟩
      rcases ih h with ⟨middle, hfront, hmore⟩
      exact ⟨middle, ⟨first, hle, hfront⟩, hmore⟩
    · rcases h with ⟨hbehind, hp, h⟩
      rcases ih h with ⟨middle, hfront, hmore⟩
      exact ⟨middle, ⟨hbehind, hp, hfront⟩, hmore⟩

/-- A thing is as it should be, and in its place, when its items follow one another. -/
def Lays (place : Location → Prop) (range : α → Range) (ok : α → Prop) (items : α → List Item) :
    Prop :=
  ∀ {x start stop}, Laid place start (items x) stop → InLine range ok start [x] stop

namespace Laid

variable (hitems : Lays place range ok items) {xs : List α}
include hitems

theorem inLine (h : Laid place start (xs.flatMap items) stop) :
    InLine range ok start xs stop := by
  induction xs generalizing start with
  | nil => exact h
  | cons x xs ih =>
    rw [List.flatMap_cons] at h
    rcases h.of_append with ⟨middle, hx, hxs⟩
    exact InLine.append.mpr ⟨middle, hitems hx, ih hxs⟩

/-- Things with commas between them are in line. -/
theorem inLine_commas (h : Laid place start (commas (xs.map items)) stop) :
    InLine range ok start xs stop := by
  induction xs generalizing start with
  | nil => exact h
  | cons x xs ih =>
    cases xs with
    | nil =>
      rw [List.map_singleton, Item.commas_singleton] at h
      exact hitems h
    | cons y xs =>
      rw [List.map_cons, List.map_cons, Item.commas_cons_cons] at h
      rcases h.of_append with ⟨middle, hx, first, hlt, hxs⟩
      have hrest := inLine_cons.mp (ih hxs)
      have hbehind : InLine range ok middle (y :: xs) stop := ⟨hlt.le.trans hrest.1, hrest.2⟩
      exact InLine.append.mpr ⟨middle, hitems hx, hbehind⟩

/-- Before a closing mark. -/
theorem inLine_closed {close : Token.Kind}
    (h : Laid place start (commas (xs.map items) ++ [token close]) stop) :
    ∃ last, InLine range ok start xs last ∧ last < stop := by
  rcases h.of_append with ⟨last, hxs, _, hlt, rfl⟩
  exact ⟨last, hxs.inLine_commas hitems, hlt⟩

end Laid

end

theorem lays_pattern :
    Lays place Pattern.range (Pattern.Nested place) ([part <| .pattern ·]) := fun h => h

theorem lays_expr : Lays place Expr.range (Expr.Nested place) ([part <| .expr ·]) := fun h => h

theorem lays_name : Lays place Located.range (fun n : Located String => n.range.Proper place)
    ([part <| .name ·]) := fun h => h

/-- A setter is laid out as its field and its value. -/
theorem lays_setter : Lays place Setter.range (Setter.Nested place) Setter.items := by
  intro s start stop h
  rcases h with ⟨hstart, hfield, middle, hlt, hle, hvalue, hstop⟩
  have hs : s.Nested place := ⟨hfield, hlt.trans_le hle, hvalue⟩
  rw [inLine_cons, hs.range_eq]
  exact ⟨hstart, hs, hstop⟩

/-- A branch is laid out as its pattern and its body. -/
theorem lays_branch : Lays place Branch.range (Branch.Nested place) Branch.items := by
  intro b start stop h
  rcases h with ⟨hstart, hpattern, middle, hlt, hle, hbody, hstop⟩
  exact ⟨hstart, ⟨hpattern, hlt.trans_le hle, hbody⟩, hstop⟩

/-! ## From items to trees -/

/-- The items of the node follow one another in its range. If a part comes first, it starts
there. -/
structure Node.IsLaid (place : Location → Prop) (n : Node) : Prop where
  proper : n.range.Proper place
  items : Laid place n.range.start n.items n.range.stop
  head : ∀ p rest, n.items = part p :: rest → (∀ f, p ≠ field f) → p.range.start = n.range.start

/-- A pattern whose items are laid out in order is nested. -/
theorem Pattern.nested_of_isLaid {p : Pattern} (h : (Node.pattern p).IsLaid place) :
    p.Nested place := by
  have hr : p.range.Proper place := h.proper
  have hitems : Laid place p.range.start p.items p.range.stop := h.items
  cases p with
  | wild | unit | var | literal => exact hr
  | ctor r name args =>
    rcases hitems with ⟨first, hlt, hargs⟩
    rw [List.map_eq_flatMap] at hargs
    exact ⟨hr, first, hlt, nestedAll_iff.mpr (hargs.inLine lays_pattern)⟩
  | tuple r items | list r items =>
    rcases hitems with ⟨first, hlt, hitems⟩
    rcases hitems.inLine_closed lays_pattern with ⟨last, hline, hlast⟩
    exact ⟨hr, first, last, hlt, nestedAll_iff.mpr hline, hlast⟩
  | record r fields =>
    rcases hitems with ⟨first, hlt, hfields⟩
    rcases hfields.inLine_closed lays_name with ⟨last, hline, hlast⟩
    exact ⟨hr, first, last, hlt, hline, hlast⟩
  | cons r head tail =>
    rcases hitems with ⟨-, hhead, middle, hlt, hle, htail, hstop⟩
    exact ⟨hr, (h.head _ _ rfl nofun).symm, hhead, hlt.trans_le hle, htail, hstop⟩
  | named r inner name =>
    rcases hitems with ⟨-, hinner, middle, hlt, hle, hname, hstop⟩
    exact ⟨hr, (h.head _ _ rfl nofun).symm, hinner, hlt.trans_le hle, hname, hstop⟩
  | paren r inner =>
    rcases hitems with ⟨first, hlt, hle, hinner, stop, hstop, rfl⟩
    exact ⟨hr, hlt.trans_le hle, hinner, hstop⟩

/-- An expression whose items are laid out in order is nested. -/
theorem Expr.nested_of_isLaid {e : Expr} (h : (Node.expr e).IsLaid place) (hapt : e.Apt) :
    e.Nested place := by
  have hr : e.range.Proper place := h.proper
  have hitems : Laid place e.range.start e.items e.range.stop := h.items
  cases e with
  | unit | literal | var | operatorFn | accessor => exact hr
  | app r fn args =>
    rcases hitems with ⟨-, hfn, hargs⟩
    rw [List.map_eq_flatMap] at hargs
    exact ⟨hr, (h.head _ _ rfl nofun).symm, hfn, hapt.2.1, nestedAll_iff.mpr (hargs.inLine lays_expr)⟩
  | binary r symbol left right =>
    rcases hitems with ⟨-, hleft, middle, hlt, hle, hright, hstop⟩
    exact ⟨hr, (h.head _ _ rfl nofun).symm, hleft, hlt.trans_le hle, hright, hstop⟩
  | negate r inner =>
    rcases hitems with ⟨first, hlt, hle, hinner, hstop⟩
    exact ⟨hr, hlt.trans_le hle, hinner, hstop⟩
  | paren r inner =>
    rcases hitems with ⟨first, hlt, hle, hinner, stop, hstop, rfl⟩
    exact ⟨hr, hlt.trans_le hle, hinner, hstop⟩
  | list r items | tuple r items =>
    rcases hitems with ⟨first, hlt, hitems⟩
    rcases hitems.inLine_closed lays_expr with ⟨last, hline, hlast⟩
    exact ⟨hr, first, last, hlt, nestedAll_iff.mpr hline, hlast⟩
  | record r setters =>
    rcases hitems with ⟨first, hlt, hsetters⟩
    rcases hsetters.inLine_closed lays_setter with ⟨last, hline, hlast⟩
    exact ⟨hr, first, last, hlt, nestedSetters_iff.mpr hline, hlast⟩
  | update r base setters =>
    rcases hitems with ⟨opening, hlt, hle, hbase, first, hfirst, hsetters⟩
    rcases hsetters.inLine_closed lays_setter with ⟨last, hline, hlast⟩
    exact ⟨hr, hlt.trans_le hle, hbase, first, last, hfirst, nestedSetters_iff.mpr hline, hlast⟩
  | access r owner field =>
    rcases hitems with ⟨-, howner, hlt, hfield, hstop⟩
    exact ⟨hr, (h.head _ _ rfl nofun).symm, howner, hlt, hlt.trans hfield.lt, hstop⟩
  | cond r condition thenBranch elseBranch =>
    obtain ⟨first, hlt, hle, hcond, second, hlt', hle', hthen, third, hlt'', hle'', helse, hstop⟩ :=
      hitems
    exact ⟨hr, hlt.trans_le hle, hcond, hlt'.trans_le hle', hthen, hlt''.trans_le hle'', helse,
      hstop⟩
  | case r scrutinee branches =>
    rcases hitems with ⟨opening, hlt, hle, hscrutinee, first, hfirst, hbranches⟩
    exact ⟨hr, hlt.trans_le hle, hscrutinee, hapt, first, hfirst,
      nestedBranches_iff.mpr (hbranches.inLine lays_branch)⟩
  | lambda r params body =>
    rcases hitems with ⟨first, hlt, hitems⟩
    rcases hitems.of_append with ⟨last, hparams, arrow, harrow, hle, hbody, hstop⟩
    rw [List.map_eq_flatMap] at hparams
    exact ⟨hr, hapt.1, first, last, hlt,
      Pattern.nestedAll_iff.mpr (hparams.inLine lays_pattern), harrow.le.trans hle, hbody, hstop⟩

namespace Node

/-- A node that is written with tokens in their places has nested ranges. -/
theorem Stands.nested {n : Node} {ts : List Token} (h : n.Stands ts) (hts : Tidy place ts) :
    n.Nested place := by
  induction n using induction_on_parts generalizing ts with
  | step n ih =>
    have hproper := (h.range_within hts).1
    by_cases hfield : ∃ f, n = field f
    · rcases hfield with ⟨f, rfl⟩
      exact hproper
    have hrange := h.range_eq fun f hf => hfield ⟨f, hf⟩
    have hlaid : n.IsLaid place := by
      refine ⟨hproper, ?_, fun p rest => h.start_eq_of_head⟩
      rw [hrange, ← reach_eq _ h.ne_nil]
      exact laid_of_spelled h.2 hts (fun t => hts.start_le) fun p hp own => ih p hp
    cases n with
    | expr e => exact Expr.nested_of_isLaid hlaid h.1.1
    | pattern p => exact Pattern.nested_of_isLaid hlaid
    | name | field => exact hproper

end Node

end Terse
