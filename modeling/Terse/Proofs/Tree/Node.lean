import Mathlib.Data.List.Basic
import Terse.Grammar.Precedence
import Terse.Token.Basic
import Terse.Tree.Expr

/-!
# What trees are written with

A node of a tree is written with tokens of its own and with its parts, in a fixed order. Putting the
tokens of the parts in their places flattens a tree back to the tokens that it was read from. Only
the sign of a zero in a pattern is lost by reading.
-/

namespace Terse

open Token (Kind)

/-- A node of a tree: an expression, a pattern, or a name with a place of its own. -/
inductive Node where
  | expr (e : Expr)
  | pattern (p : Pattern)
  /-- A name in a pattern, the field of a setter, or the record that an update starts from. -/
  | name (n : Located String)
  /-- The field that is taken of a record, without the dot before it. -/
  | field (f : Located String)

/-- What a tree says about one token of its text: it must stand there, or it may. -/
inductive Mark where
  | must (kind : Kind)
  | may (kind : Kind)

/-- What a node is written with: a token of its own, or a part. -/
inductive Item where
  | mark (m : Mark)
  | part (n : Node)

namespace Item

/-- A token of the node's own. -/
abbrev token (kind : Kind) : Item := .mark (.must kind)

/-- The part, if the item is one. -/
def part? : Item → Option Node
  | .mark _ => none
  | .part n => some n

/-- Items with commas between them. -/
def commas (xs : List (List Item)) : List Item := [token .comma].intercalate xs

@[simp] theorem commas_singleton (x : List Item) : commas [x] = x := by
  simp [commas, List.intercalate]

@[simp] theorem commas_cons_cons (x y : List Item) (xs : List (List Item)) :
    commas (x :: y :: xs) = x ++ token .comma :: commas (y :: xs) := by
  simp [commas, List.intercalate]

/-- Between groups of items stand commas and nothing else. -/
theorem mem_commas {i : Item} {xs : List (List Item)} (h : i ∈ commas xs) :
    i = token .comma ∨ ∃ x ∈ xs, i ∈ x := by
  induction xs with
  | nil => cases h
  | cons x xs ih =>
    cases xs with
    | nil => exact .inr ⟨x, List.mem_cons_self, by simpa using h⟩
    | cons y xs =>
      rw [commas_cons_cons, List.mem_append, List.mem_cons] at h
      rcases h with h | h | h
      · exact .inr ⟨x, List.mem_cons_self, h⟩
      · exact .inl h
      · rcases ih h with h | ⟨z, hz, hi⟩
        · exact .inl h
        · exact .inr ⟨z, List.mem_cons_of_mem x hz, hi⟩

theorem mem_commas_of_mem {i : Item} {x : List Item} {xs : List (List Item)} (hi : i ∈ x)
    (hx : x ∈ xs) : i ∈ commas xs := by
  induction xs with
  | nil => cases hx
  | cons y xs ih =>
    cases xs with
    | nil =>
      obtain rfl := List.mem_singleton.mp hx
      simpa using hi
    | cons z xs =>
      rw [commas_cons_cons, List.mem_append, List.mem_cons]
      rcases List.mem_cons.mp hx with rfl | hx
      · exact .inl hi
      · exact .inr (.inr (ih hx))

end Item

open Item (token part commas)

theorem part_mem_commas_map {α : Type} {p : Node} {f : α → List Item} {xs : List α}
    (h : part p ∈ commas (xs.map f)) : ∃ x ∈ xs, part p ∈ f x := by
  rcases Item.mem_commas h with h | ⟨_, hx, hp⟩
  · cases h
  · rcases List.mem_map.mp hx with ⟨x, hmem, rfl⟩
    exact ⟨x, hmem, hp⟩

theorem part_mem_commas_of_mem {α : Type} {p : Node} {f : α → List Item} {x : α} {xs : List α}
    (hx : x ∈ xs) (hp : part p ∈ f x) : part p ∈ commas (xs.map f) :=
  Item.mem_commas_of_mem hp (List.mem_map_of_mem hx)

/-- The parts of groups with commas between them are those of the groups. -/
theorem part_mem_commas_iff {α : Type} {p : Node} {f : α → List Item} {xs : List α} :
    part p ∈ commas (xs.map f) ↔ ∃ x ∈ xs, part p ∈ f x := by
  constructor
  · exact part_mem_commas_map
  · rintro ⟨x, hx, hp⟩
    exact part_mem_commas_of_mem hx hp

/-! ## Items of each form -/

/-- The token of a reference. -/
def QualifiedName.kind (q : QualifiedName) : Kind :=
  if q.isConstructor then .upper q.path.segments q.name else .lower q.path.segments q.name

/-- The token of a literal without a sign. -/
def Literal.kind : Literal → Kind
  | .int n => .int n.toNat
  | .hex n => .hex n.toNat
  | .float x => .float x
  | .string s => .string s
  | .char c => .char c

/-- The literal has a sign. -/
def Literal.isNegative : Literal → Bool
  | .int n | .hex n => n < 0
  | .float x => x.negative
  | .string _ | .char _ => false

/-- The literal with the opposite sign, if it is a number. -/
def Literal.negate : Literal → Literal
  | .int n => .int (-n)
  | .hex n => .hex (-n)
  | .float x => .float x.negate
  | l => l

/-- How a literal is written in a pattern. The sign is a token of its own, and an integer zero may
have been written with one. -/
def Literal.items (l : Literal) : List Item :=
  if l.isNegative then [token .minus, token l.negate.kind]
  else if l = .int 0 then [.mark (.may .minus), token l.kind]
  else [token l.kind]

/-- What a pattern is written with. -/
def Pattern.items : Pattern → List Item
  | wild _ => [token .underscore]
  | unit _ => [token .leftParen, token .rightParen]
  | var _ name => [token (.lower [] name)]
  | literal _ value => value.items
  | ctor _ name args => token (.upper name.path.segments name.name) :: args.map (part ∘ .pattern)
  | tuple _ items =>
    token .leftParen :: (commas (items.map ([part <| .pattern ·])) ++ [token .rightParen])
  | list _ items =>
    token .leftBracket :: (commas (items.map ([part <| .pattern ·])) ++ [token .rightBracket])
  | cons _ head tail => [part (.pattern head), token (.operator "::"), part (.pattern tail)]
  | record _ fields =>
    token .leftBrace :: (commas (fields.map ([part <| .name ·])) ++ [token .rightBrace])
  | named _ inner name => [part (.pattern inner), token (.keyword .asWord), part (.name name)]
  | paren _ inner => [token .leftParen, part (.pattern inner), token .rightParen]

/-- What a setter is written with. -/
def Setter.items (s : Setter) : List Item :=
  [part (.name s.field), token .equals, part (.expr s.value)]

/-- What a branch is written with. -/
def Branch.items (b : Branch) : List Item :=
  [part (.pattern b.pattern), token .arrow, part (.expr b.body)]

/-- What an expression is written with. -/
def Expr.items : Expr → List Item
  | unit _ => [token .leftParen, token .rightParen]
  | literal _ value => [token value.kind]
  | var _ name => [token name.kind]
  | operatorFn _ symbol => [token .leftParen, token (.operator symbol), token .rightParen]
  | accessor _ field => [token (.accessor field)]
  | app _ fn args => part (.expr fn) :: args.map (part ∘ .expr)
  | binary _ symbol left right =>
    [part (.expr left), token (.operator symbol), part (.expr right)]
  | negate _ inner => [token .minus, part (.expr inner)]
  | paren _ inner => [token .leftParen, part (.expr inner), token .rightParen]
  | list _ items =>
    token .leftBracket :: (commas (items.map ([part <| .expr ·])) ++ [token .rightBracket])
  | tuple _ items =>
    token .leftParen :: (commas (items.map ([part <| .expr ·])) ++ [token .rightParen])
  | record _ setters =>
    token .leftBrace :: (commas (setters.map Setter.items) ++ [token .rightBrace])
  | update _ base setters =>
    token .leftBrace :: part (.name base) :: token .pipe ::
      (commas (setters.map Setter.items) ++ [token .rightBrace])
  | access _ owner field => [part (.expr owner), part (.field field)]
  | cond _ condition thenBranch elseBranch =>
    [token (.keyword .ifWord), part (.expr condition), token (.keyword .thenWord),
      part (.expr thenBranch), token (.keyword .elseWord), part (.expr elseBranch)]
  | case _ scrutinee branches =>
    token (.keyword .caseWord) :: part (.expr scrutinee) :: token (.keyword .ofWord) ::
      branches.flatMap Branch.items
  | lambda _ params body =>
    token .backslash :: (params.map (part ∘ .pattern) ++ [token .arrow, part (.expr body)])

/-- The parts that are expressions are the direct sub-expressions. -/
theorem Expr.part_mem_items {e c : Expr} : part (.expr c) ∈ e.items ↔ c ∈ e.children := by
  cases e <;>
    simp [Expr.items, Expr.children, part_mem_commas_iff, Setter.items, Branch.items, eq_comm]

namespace Node

/-- Where the node stands. -/
def range : Node → Range
  | expr e => e.range
  | pattern p => p.range
  | name n | field n => n.range

/-- What a node is written with. -/
def items : Node → List Item
  | expr e => e.items
  | pattern p => p.items
  | name n => [token (.lower [] n.value)]
  | field f => [token (.dotField f.value)]

/-- The direct parts of a node in source order. -/
def parts (n : Node) : List Node := n.items.filterMap Item.part?

/-- The parts of a node are those among its items. -/
@[simp] theorem mem_parts {n p : Node} : p ∈ n.parts ↔ part p ∈ n.items := by
  rw [parts, List.mem_filterMap]
  constructor
  · rintro ⟨i, hi, hpart⟩
    cases i with
    | mark m => cases hpart
    | part q =>
      cases hpart
      exact hi
  · exact fun h => ⟨_, h, rfl⟩

/-! ## Parts are smaller -/

/-- What stands in brackets is one of the items between the commas. -/
theorem part_mem_bracketed {α : Type} {p : Node} {opening closing : Kind} {f : α → List Item}
    {xs : List α} (h : part p ∈ token opening :: (commas (xs.map f) ++ [token closing])) :
    ∃ x ∈ xs, part p ∈ f x := by
  rcases List.mem_cons.mp h with h | h
  · cases h
  rcases List.mem_append.mp h with h | h
  · exact part_mem_commas_map h
  · simp at h

variable {p : Node}

/-- The parts of a pattern are smaller than the pattern. -/
theorem sizeOf_lt_of_pattern {q : Pattern} (h : part p ∈ q.items) : sizeOf p < 1 + sizeOf q := by
  cases q with
  | wild | unit | var => simp [Pattern.items] at h
  | literal _ value =>
    simp only [Pattern.items, Literal.items] at h
    split at h
    · simp at h
    · split at h <;> simp at h
  | ctor _ _ args =>
    simp only [Pattern.items, List.mem_cons, List.mem_map, Function.comp] at h
    rcases h with h | ⟨a, ha, h⟩ <;> cases h
    have := List.sizeOf_lt_of_mem ha
    simp only [pattern.sizeOf_spec, Pattern.ctor.sizeOf_spec]
    omega
  | tuple _ items | list _ items =>
    rcases part_mem_bracketed h with ⟨a, ha, h⟩
    cases List.mem_singleton.mp h
    have := List.sizeOf_lt_of_mem ha
    simp only [pattern.sizeOf_spec, Pattern.tuple.sizeOf_spec, Pattern.list.sizeOf_spec]
    omega
  | record _ fields =>
    rcases part_mem_bracketed h with ⟨f, hf, h⟩
    cases List.mem_singleton.mp h
    have := List.sizeOf_lt_of_mem hf
    simp only [name.sizeOf_spec, Pattern.record.sizeOf_spec]
    omega
  | cons _ head tail =>
    simp only [Pattern.items, List.mem_cons] at h
    rcases h with h | h | h | h <;> cases h <;>
      simp only [pattern.sizeOf_spec, Pattern.cons.sizeOf_spec] <;> omega
  | named _ inner name =>
    simp only [Pattern.items, List.mem_cons] at h
    rcases h with h | h | h | h <;> cases h <;>
      simp only [pattern.sizeOf_spec, Node.name.sizeOf_spec, Pattern.named.sizeOf_spec] <;> omega
  | paren _ inner =>
    obtain rfl : p = .pattern inner := by simpa [Pattern.items] using h
    simp only [pattern.sizeOf_spec, Pattern.paren.sizeOf_spec]
    omega

theorem sizeOf_lt_of_setter {s : Setter} (h : part p ∈ s.items) : sizeOf p < 1 + sizeOf s := by
  cases s with
  | mk field value =>
    simp only [Setter.items, Setter.field, Setter.value, List.mem_cons] at h
    rcases h with h | h | h | h <;> cases h <;>
      simp only [Setter.mk.sizeOf_spec, expr.sizeOf_spec, name.sizeOf_spec] <;> omega

theorem sizeOf_lt_of_branch {b : Branch} (h : part p ∈ b.items) : sizeOf p < 1 + sizeOf b := by
  cases b with
  | mk pattern body =>
    simp only [Branch.items, Branch.pattern, Branch.body, List.mem_cons] at h
    rcases h with h | h | h | h <;> cases h <;>
      simp only [Branch.mk.sizeOf_spec, expr.sizeOf_spec, Node.pattern.sizeOf_spec] <;> omega

/-- The parts of an expression are smaller than the expression. -/
theorem sizeOf_lt_of_expr {e : Expr} (h : part p ∈ e.items) : sizeOf p < 1 + sizeOf e := by
  cases e with
  | unit | literal | var | operatorFn | accessor => simp [Expr.items] at h
  | app _ fn args =>
    simp only [Expr.items, List.mem_cons, List.mem_map, Function.comp] at h
    rcases h with h | ⟨a, ha, h⟩ <;> cases h
    · simp only [expr.sizeOf_spec, Expr.app.sizeOf_spec]
      omega
    · have := List.sizeOf_lt_of_mem ha
      simp only [expr.sizeOf_spec, Expr.app.sizeOf_spec]
      omega
  | binary _ _ left right =>
    simp only [Expr.items, List.mem_cons] at h
    rcases h with h | h | h | h <;> cases h <;>
      simp only [expr.sizeOf_spec, Expr.binary.sizeOf_spec] <;> omega
  | negate _ inner | paren _ inner =>
    obtain rfl : p = .expr inner := by simpa [Expr.items] using h
    simp only [expr.sizeOf_spec, Expr.negate.sizeOf_spec, Expr.paren.sizeOf_spec]
    omega
  | list _ items | tuple _ items =>
    rcases part_mem_bracketed h with ⟨a, ha, h⟩
    cases List.mem_singleton.mp h
    have := List.sizeOf_lt_of_mem ha
    simp only [expr.sizeOf_spec, Expr.tuple.sizeOf_spec, Expr.list.sizeOf_spec]
    omega
  | record _ setters =>
    rcases part_mem_bracketed h with ⟨s, hs, h⟩
    have := List.sizeOf_lt_of_mem hs
    have := sizeOf_lt_of_setter h
    simp only [Expr.record.sizeOf_spec]
    omega
  | update _ base setters =>
    rw [Expr.items, List.mem_cons, List.mem_cons] at h
    rcases h with h | h | h
    · cases h
    · cases h
      simp only [name.sizeOf_spec, Expr.update.sizeOf_spec]
      omega
    · rcases part_mem_bracketed h with ⟨s, hs, h⟩
      have := List.sizeOf_lt_of_mem hs
      have := sizeOf_lt_of_setter h
      simp only [Expr.update.sizeOf_spec]
      omega
  | access _ owner field =>
    simp only [Expr.items, List.mem_cons] at h
    rcases h with h | h | h <;> cases h <;>
      simp only [expr.sizeOf_spec, Node.field.sizeOf_spec, Expr.access.sizeOf_spec] <;> omega
  | cond _ condition thenBranch elseBranch =>
    simp only [Expr.items, List.mem_cons] at h
    rcases h with h | h | h | h | h | h | h <;> cases h <;>
      simp only [expr.sizeOf_spec, Expr.cond.sizeOf_spec] <;> omega
  | case _ scrutinee branches =>
    simp only [Expr.items, List.mem_cons, List.mem_flatMap] at h
    rcases h with h | h | h | ⟨b, hb, h⟩
    · cases h
    · cases h
      simp only [expr.sizeOf_spec, Expr.case.sizeOf_spec]
      omega
    · cases h
    · have := List.sizeOf_lt_of_mem hb
      have := sizeOf_lt_of_branch h
      simp only [Expr.case.sizeOf_spec]
      omega
  | lambda _ params body =>
    simp only [Expr.items, List.mem_cons, List.mem_append, List.mem_map, Function.comp] at h
    rcases h with h | ⟨a, ha, h⟩ | h | h | h <;> cases h
    · have := List.sizeOf_lt_of_mem ha
      simp only [pattern.sizeOf_spec, Expr.lambda.sizeOf_spec]
      omega
    · simp only [expr.sizeOf_spec, Expr.lambda.sizeOf_spec]
      omega

/-- The parts of a node are smaller than the node. -/
theorem sizeOf_lt_of_part {n : Node} (h : part p ∈ n.items) : sizeOf p < sizeOf n := by
  cases n with
  | name | field => simp [items] at h
  | pattern q => exact sizeOf_lt_of_pattern h
  | expr e => exact sizeOf_lt_of_expr h

/-- What passes from the parts of a node to the node holds of every node. -/
theorem induction_on_parts {motive : Node → Prop}
    (step : ∀ n : Node, (∀ p, part p ∈ n.items → motive p) → motive n) (n : Node) : motive n :=
  step n fun p hp =>
    have := sizeOf_lt_of_part hp
    induction_on_parts step p
termination_by sizeOf n

/-! ## Whole trees -/

/-- The tokens of a tree: those of its own, with those of its parts in their places. -/
def marks (n : Node) : List Mark :=
  n.items.attach.flatMap fun
    | ⟨.mark m, _⟩ => [m]
    | ⟨.part p, _⟩ => p.marks
termination_by sizeOf n
decreasing_by exact sizeOf_lt_of_part (by assumption)

/-- The node is the root or stands below it. -/
inductive Under (root : Node) : Node → Prop where
  | root : Under root root
  | part {n p : Node} (h : Under root n) (hp : p ∈ n.parts) : Under root p

end Node

/-- The tokens of an item: its own one, or those of the part. -/
def Item.marks : Item → List Mark
  | .mark m => [m]
  | .part p => p.marks

/-- A node spells what its items spell in turn. -/
theorem Node.marks_eq (n : Node) : n.marks = n.items.flatMap Item.marks := by
  rw [marks, List.flatMap_subtype (g := Item.marks), List.unattach_attach]
  intro i hi
  cases i <;> rfl

end Terse
