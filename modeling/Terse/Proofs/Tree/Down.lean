import Terse.Tree.Module

/-!
# Trees further down

What was read from a text stands some rows further down when the text does. Every place of a tree
has the same column then, and its row grows by the same number; all else stays as it is.
-/

namespace Terse

/-! ## Places -/

/-- The same column, `k` rows further down. -/
def Location.down (k : Nat) (l : Location) : Location := ⟨l.row + k, l.column⟩

/-- The same columns, `k` rows further down. -/
def Range.down (k : Nat) (r : Range) : Range := ⟨r.start.down k, r.stop.down k⟩

/-- The same value, `k` rows further down. -/
def Located.down {α : Type} (k : Nat) (x : Located α) : Located α := ⟨x.value, x.range.down k⟩

namespace Location

variable {k : Nat} {a b : Location}

/-- Moving places down keeps their order. -/
@[simp] theorem down_le_down_iff : a.down k ≤ b.down k ↔ a ≤ b := by
  simp only [le_def, down]
  omega

/-- One more character leads to the same place, on either row. -/
theorem after_down (k : Nat) (a : Location) (c : Char) :
    (a.down k).after c = (a.after c).down k := by
  unfold after
  split
  · simp only [down, mk.injEq, and_true]
    omega
  · rfl

/-- What follows a text follows it also further down. -/
theorem afterAll_down (k : Nat) (a : Location) (cs : List Char) :
    (a.down k).afterAll cs = (a.afterAll cs).down k := by
  induction cs generalizing a with
  | nil => rfl
  | cons c cs ih =>
    unfold afterAll at ih ⊢
    rw [List.foldl_cons, List.foldl_cons, after_down, ih]

theorem min_down (k : Nat) (a b : Location) : min (a.down k) (b.down k) = (min a b).down k := by
  change (if a.down k ≤ b.down k then a.down k else b.down k) = (if a ≤ b then a else b).down k
  by_cases h : a ≤ b <;> simp [h]

theorem max_down (k : Nat) (a b : Location) : max (a.down k) (b.down k) = (max a b).down k := by
  change (if a.down k ≤ b.down k then b.down k else a.down k) = (if a ≤ b then b else a).down k
  by_cases h : a ≤ b <;> simp [h]

end Location

/-- The range around two ranges moves down with them. -/
@[simp] theorem Range.merge_down (k : Nat) (a b : Range) :
    (a.down k).merge (b.down k) = (a.merge b).down k := by
  simp only [merge, down, Location.min_down, Location.max_down]

/-! ## Patterns and expressions -/

namespace Pattern

mutual

/-- The pattern, `k` rows further down. -/
def down (k : Nat) : Pattern → Pattern
  | wild r => wild (r.down k)
  | unit r => unit (r.down k)
  | var r name => var (r.down k) name
  | literal r value => literal (r.down k) value
  | ctor r name args => ctor (r.down k) name (downAll k args)
  | tuple r items => tuple (r.down k) (downAll k items)
  | list r items => list (r.down k) (downAll k items)
  | cons r head tail => cons (r.down k) (head.down k) (tail.down k)
  | record r fields => record (r.down k) (fields.map (Located.down k))
  | named r inner name => named (r.down k) (inner.down k) (name.down k)
  | paren r inner => paren (r.down k) (inner.down k)

/-- Patterns, `k` rows further down. -/
def downAll (k : Nat) : List Pattern → List Pattern
  | [] => []
  | p :: ps => p.down k :: downAll k ps

end

@[simp] theorem downAll_eq (k : Nat) (ps : List Pattern) : downAll k ps = ps.map (down k) := by
  induction ps with
  | nil => rfl
  | cons p ps ih => rw [downAll, ih, List.map_cons]

/-- The range of a pattern moves down with it. -/
@[simp] theorem range_down (k : Nat) (p : Pattern) : (p.down k).range = p.range.down k := by
  cases p <;> rfl

end Pattern

namespace Expr

mutual

/-- The expression, `k` rows further down. -/
def down (k : Nat) : Expr → Expr
  | unit r => unit (r.down k)
  | literal r value => literal (r.down k) value
  | var r name => var (r.down k) name
  | operatorFn r symbol => operatorFn (r.down k) symbol
  | accessor r field => accessor (r.down k) field
  | app r fn args => app (r.down k) (fn.down k) (downAll k args)
  | binary r symbol left right => binary (r.down k) symbol (left.down k) (right.down k)
  | negate r inner => negate (r.down k) (inner.down k)
  | paren r inner => paren (r.down k) (inner.down k)
  | list r items => list (r.down k) (downAll k items)
  | tuple r items => tuple (r.down k) (downAll k items)
  | record r setters => record (r.down k) (downSetters k setters)
  | update r base setters => update (r.down k) (base.down k) (downSetters k setters)
  | access r owner field => access (r.down k) (owner.down k) (field.down k)
  | cond r condition thenBranch elseBranch =>
    cond (r.down k) (condition.down k) (thenBranch.down k) (elseBranch.down k)
  | case r scrutinee branches => case (r.down k) (scrutinee.down k) (downBranches k branches)
  | lambda r params body => lambda (r.down k) (params.map (Pattern.down k)) (body.down k)

/-- Expressions, `k` rows further down. -/
def downAll (k : Nat) : List Expr → List Expr
  | [] => []
  | e :: es => e.down k :: downAll k es

/-- Setters, `k` rows further down. -/
def downSetters (k : Nat) : List Setter → List Setter
  | [] => []
  | .mk field value :: ss => .mk (field.down k) (value.down k) :: downSetters k ss

/-- Branches, `k` rows further down. -/
def downBranches (k : Nat) : List Branch → List Branch
  | [] => []
  | .mk pattern body :: bs => .mk (pattern.down k) (body.down k) :: downBranches k bs

end

end Expr

/-- The setter, `k` rows further down. -/
def Setter.down (k : Nat) (s : Setter) : Setter := .mk (s.field.down k) (s.value.down k)

/-- The branch, `k` rows further down. -/
def Branch.down (k : Nat) (b : Branch) : Branch := .mk (b.pattern.down k) (b.body.down k)

namespace Expr

@[simp] theorem downAll_eq (k : Nat) (es : List Expr) : downAll k es = es.map (down k) := by
  induction es with
  | nil => rfl
  | cons e es ih => rw [downAll, ih, List.map_cons]

@[simp] theorem downSetters_eq (k : Nat) (ss : List Setter) :
    downSetters k ss = ss.map (Setter.down k) := by
  induction ss with
  | nil => rfl
  | cons s ss ih =>
    cases s
    rw [downSetters, ih, List.map_cons]
    rfl

@[simp] theorem downBranches_eq (k : Nat) (bs : List Branch) :
    downBranches k bs = bs.map (Branch.down k) := by
  induction bs with
  | nil => rfl
  | cons b bs ih =>
    cases b
    rw [downBranches, ih, List.map_cons]
    rfl

/-- The range of an expression moves down with it. -/
@[simp] theorem range_down (k : Nat) (e : Expr) : (e.down k).range = e.range.down k := by
  cases e <;> rfl

end Expr

/-! ## Modules -/

/-- The import, `k` rows further down. -/
def Import.down (k : Nat) (i : Import) : Import := { i with path := i.path.down k }

/-- The value, `k` rows further down. -/
def ValueDecl.down (k : Nat) (v : ValueDecl) : ValueDecl :=
  ⟨v.name.down k, v.params.map (Pattern.down k), v.body.down k⟩

/-- The custom type, `k` rows further down. -/
def CustomType.down (k : Nat) (t : CustomType) : CustomType :=
  ⟨t.name.down k, t.constructors.map (Located.down k)⟩

/-- The declaration, `k` rows further down. -/
def Declaration.down (k : Nat) : Declaration → Declaration
  | .value v => .value (v.down k)
  | .customType t => .customType (t.down k)

/-- The name of a module, `k` rows further down if it stands in the text. -/
def Located.downIfWritten {α : Type} (k : Nat) (x : Located α) : Located α :=
  if x.range = Range.nowhere then x else x.down k

/-- The module, `k` rows further down in a text that starts with so many empty rows. -/
def Module.down (k : Nat) (m : Module) : Module where
  name := m.name.downIfWritten k
  exposing := m.exposing
  imports := m.imports.map (Import.down k)
  declarations := m.declarations.map (Declaration.down k)
  source := ⟨List.replicate k '\n' ++ m.source.chars⟩

end Terse
