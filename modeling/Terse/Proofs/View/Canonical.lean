import Terse.Proofs.Tree.Erasure
import Terse.View.Equality

/-!
# Canonical forms

A canonical form keeps of an expression what equality looks at: no parentheses and no places,
references by their meaning, numbers by their class and their value. Two expressions are equal
exactly when their canonical forms are the same, so equality is an equivalence.
-/

namespace Terse

/-! ## Literals -/

/-- The number without a sign on a zero. -/
def Double.canon (x : Double) : Double := if x.magnitude = 0 then zero else x

/-- Numbers are the same when their canonical forms are: zero has one, with either sign. -/
theorem Double.same_iff (x y : Double) : x.same y = true ↔ x.canon = y.canon := by
  obtain ⟨negative, magnitude⟩ := x
  obtain ⟨negative', magnitude'⟩ := y
  simp only [same, rank, canon, zero, beq_iff_eq]
  -- a zero is its own negative, so only other numbers show their signs
  by_cases hzero : magnitude = 0 <;> by_cases hzero' : magnitude' = 0 <;>
    cases negative <;> cases negative' <;> simp [hzero, hzero'] <;> omega

/-- What a literal is to equality. -/
inductive CanonLiteral where
  /-- An integer in either base, as a double. -/
  | integer (value : Double)
  | float (value : Double)
  | string (value : String)
  | char (value : Char)

/-- The canonical form of a literal. -/
def Literal.canon : Literal → CanonLiteral
  | .int n | .hex n => .integer (Double.ofInt n).canon
  | .float x => .float x.canon
  | .string s => .string s
  | .char c => .char c

/-- Literals have the same value when their canonical forms are equal. -/
theorem Literal.sameValue_iff (a b : Literal) : a.sameValue b = true ↔ a.canon = b.canon := by
  cases a <;> cases b <;> simp [sameValue, canon, Double.same_iff]

/-! ## Patterns -/

/-- What a pattern is to equality. -/
inductive CanonPattern where
  | wild
  | unit
  | var (name : String)
  | literal (value : CanonLiteral)
  | ctor (name : QualifiedName) (args : List CanonPattern)
  | tuple (items : List CanonPattern)
  | list (items : List CanonPattern)
  | cons (head tail : CanonPattern)
  | record (fields : List String)
  | named (inner : CanonPattern) (name : String)

namespace Pattern

mutual

/-- The canonical form of a pattern. -/
def canon : Pattern → CanonPattern
  | wild _ => .wild
  | unit _ => .unit
  | var _ name => .var name
  | literal _ value => .literal value.canon
  | ctor _ name args => .ctor name (canonAll args)
  | tuple _ items => .tuple (canonAll items)
  | list _ items => .list (canonAll items)
  | cons _ head tail => .cons head.canon tail.canon
  | record _ fields => .record (fields.map (·.value))
  | named _ inner name => .named inner.canon name.value
  | paren _ inner => inner.canon

/-- The canonical forms of patterns. -/
def canonAll : List Pattern → List CanonPattern
  | [] => []
  | p :: ps => p.canon :: canonAll ps

end

/-- The canonical form of a pattern looks through parentheses. -/
theorem canon_stripParens (p : Pattern) : p.stripParens.canon = p.canon :=
  apply_stripParens (fun _ _ => by rw [canon]) p

mutual

/-- Patterns have the same shape when their canonical forms are the same. -/
theorem sameShape_iff (p q : Pattern) : p.sameShape q = true ↔ p.canon = q.canon := by
  rw [← q.canon_stripParens]
  have hbare := q.stripParens_ne_paren
  cases p with
  | paren _ inner =>
    rw [sameShape, canon, q.canon_stripParens]
    exact sameShape_iff inner q
  | wild | unit | var | record =>
    rw [sameShape]
    cases hq : q.stripParens with
    | paren r inner => exact absurd hq (hbare r inner)
    | _ => simp [canon]
  | literal _ value =>
    rw [sameShape]
    cases hq : q.stripParens with
    | paren r inner => exact absurd hq (hbare r inner)
    | literal _ value' => simpa [canon] using value.sameValue_iff value'
    | _ => simp [canon]
  | ctor _ name args =>
    rw [sameShape]
    cases hq : q.stripParens with
    | paren r inner => exact absurd hq (hbare r inner)
    | ctor _ name' args' => simp [canon, sameShapes_iff args args']
    | _ => simp [canon]
  | tuple _ items | list _ items =>
    rw [sameShape]
    cases hq : q.stripParens with
    | paren r inner => exact absurd hq (hbare r inner)
    | _ => simp [canon, sameShapes_iff items]
  | cons _ head tail =>
    rw [sameShape]
    cases hq : q.stripParens with
    | paren r inner => exact absurd hq (hbare r inner)
    | cons _ head' tail' => simp [canon, sameShape_iff head head', sameShape_iff tail tail']
    | _ => simp [canon]
  | named _ inner name =>
    rw [sameShape]
    cases hq : q.stripParens with
    | paren r inner => exact absurd hq (hbare r inner)
    | named _ inner' name' => simp [canon, sameShape_iff inner inner', and_comm]
    | _ => simp [canon]

theorem sameShapes_iff (ps qs : List Pattern) :
    sameShapes ps qs = true ↔ canonAll ps = canonAll qs := by
  match ps, qs with
  | [], [] => simp [sameShapes]
  | p :: ps, q :: qs => simp [sameShapes, canonAll, sameShape_iff p q, sameShapes_iff ps qs]
  | [], _ :: _ | _ :: _, [] => simp [sameShapes, canonAll]

end

mutual

/-- Erasing places and parentheses does not change the canonical form. -/
theorem canon_erase (p : Pattern) : p.erase.canon = p.canon := by
  cases p with
  | paren _ inner =>
    rw [erase, canon]
    exact canon_erase inner
  | ctor _ _ args | tuple _ args | list _ args => simp only [erase, canon, canonAll_erase args]
  | cons _ head tail => simp only [erase, canon, canon_erase head, canon_erase tail]
  | named _ inner _ => simp only [erase, canon, canon_erase inner]
  | record => simp [canon, Function.comp_def]
  | _ => simp [canon]

theorem canonAll_erase (ps : List Pattern) : canonAll (eraseAll ps) = canonAll ps := by
  match ps with
  | [] => rfl
  | p :: ps => rw [eraseAll, canonAll, canonAll, canon_erase p, canonAll_erase ps]

end

end Pattern

/-! ## Expressions -/

/-- What a reference is to equality. -/
inductive CanonName where
  /-- The value that the reference means. -/
  | resolved (name : ResolvedName)
  /-- A reference that means nothing, as it is written. -/
  | written (name : QualifiedName)

/-- What an expression is to equality. -/
inductive CanonExpr where
  | unit
  | literal (value : CanonLiteral)
  | var (name : CanonName)
  | operatorFn (symbol : String)
  | accessor (field : String)
  | app (fn : CanonExpr) (args : List CanonExpr)
  | binary (symbol : String) (left right : CanonExpr)
  | negate (inner : CanonExpr)
  | list (items : List CanonExpr)
  | tuple (items : List CanonExpr)
  | record (setters : List (String × CanonExpr))
  | update (base : String) (setters : List (String × CanonExpr))
  | access (owner : CanonExpr) (field : String)
  | cond (condition thenBranch elseBranch : CanonExpr)
  | case (scrutinee : CanonExpr) (branches : List (CanonPattern × CanonExpr))
  | lambda (params : List CanonPattern) (body : CanonExpr)

namespace Context

variable (ctx : Context)

/-- The canonical form of a reference. -/
def canonName (q : QualifiedName) : CanonName :=
  match ctx.resolve q with
  | some r => .resolved r
  | none => .written q

/-- References are the same when they resolve to one name, or are written alike and resolve to
none. -/
theorem sameReference_iff (q q' : QualifiedName) :
    ctx.sameReference q q' = true ↔ ctx.canonName q = ctx.canonName q' := by
  unfold sameReference canonName
  cases ctx.resolve q <;> cases ctx.resolve q' <;> simp

mutual

/-- The canonical form of an expression. -/
def canon : Expr → CanonExpr
  | .unit _ => .unit
  | .literal _ value => .literal value.canon
  | .var _ name => .var (ctx.canonName name)
  | .operatorFn _ symbol => .operatorFn symbol
  | .accessor _ field => .accessor field
  | .app _ fn args => .app (canon fn) (canonAll args)
  | .binary _ symbol left right => .binary symbol (canon left) (canon right)
  | .negate _ inner => .negate (canon inner)
  | .paren _ inner => canon inner
  | .list _ items => .list (canonAll items)
  | .tuple _ items => .tuple (canonAll items)
  | .record _ setters => .record (canonSetters setters)
  | .update _ base setters => .update base.value (canonSetters setters)
  | .access _ owner field => .access (canon owner) field.value
  | .cond _ condition thenBranch elseBranch =>
    .cond (canon condition) (canon thenBranch) (canon elseBranch)
  | .case _ scrutinee branches => .case (canon scrutinee) (canonBranches branches)
  | .lambda _ params body => .lambda (Pattern.canonAll params) (canon body)

/-- The canonical forms of expressions. -/
def canonAll : List Expr → List CanonExpr
  | [] => []
  | e :: es => canon e :: canonAll es

/-- The canonical forms of setters. -/
def canonSetters : List Setter → List (String × CanonExpr)
  | [] => []
  | .mk field value :: ss => (field.value, canon value) :: canonSetters ss

/-- The canonical forms of branches. -/
def canonBranches : List Branch → List (CanonPattern × CanonExpr)
  | [] => []
  | .mk pattern body :: bs => (pattern.canon, canon body) :: canonBranches bs

end

/-- The canonical form of an expression looks through parentheses. -/
theorem canon_stripParens (e : Expr) : ctx.canon e.stripParens = ctx.canon e :=
  Expr.apply_stripParens (fun _ _ => by rw [canon]) e

mutual

/-- Expressions are equal when their canonical forms are the same. -/
theorem areEqual_iff (a b : Expr) : ctx.areEqual a b = true ↔ ctx.canon a = ctx.canon b := by
  rw [← ctx.canon_stripParens b]
  -- the comparison looks through the parentheses of `b` before it asks for its form
  have hbare := b.stripParens_ne_paren
  cases a with
  | paren _ inner =>
    rw [areEqual, canon, ctx.canon_stripParens b]
    exact areEqual_iff inner b
  | unit | operatorFn | accessor =>
    rw [areEqual]
    cases hb : b.stripParens with
    | paren r inner => exact absurd hb (hbare r inner)
    | _ => simp [canon]
  | literal _ value =>
    rw [areEqual]
    cases hb : b.stripParens with
    | paren r inner => exact absurd hb (hbare r inner)
    | literal _ value' => simpa [canon] using value.sameValue_iff value'
    | _ => simp [canon]
  | var _ name =>
    rw [areEqual]
    cases hb : b.stripParens with
    | paren r inner => exact absurd hb (hbare r inner)
    | var _ name' => simpa [canon] using ctx.sameReference_iff name name'
    | _ => simp [canon]
  | app _ fn args =>
    rw [areEqual]
    cases hb : b.stripParens with
    | paren r inner => exact absurd hb (hbare r inner)
    | app _ fn' args' => simp [canon, areEqual_iff fn fn', allEqual_iff args args']
    | _ => simp [canon]
  | binary _ symbol left right =>
    rw [areEqual]
    cases hb : b.stripParens with
    | paren r inner => exact absurd hb (hbare r inner)
    | binary _ symbol' left' right' =>
      simp [canon, areEqual_iff left left', areEqual_iff right right', and_assoc]
    | _ => simp [canon]
  | negate _ inner =>
    rw [areEqual]
    cases hb : b.stripParens with
    | paren r inner' => exact absurd hb (hbare r inner')
    | negate _ inner' => simpa [canon] using areEqual_iff inner inner'
    | _ => simp [canon]
  | list _ items | tuple _ items =>
    rw [areEqual]
    cases hb : b.stripParens with
    | paren r inner => exact absurd hb (hbare r inner)
    | _ => simp [canon, allEqual_iff items]
  | record _ setters | update _ _ setters =>
    rw [areEqual]
    cases hb : b.stripParens with
    | paren r inner => exact absurd hb (hbare r inner)
    | _ => simp [canon, settersEqual_iff setters]
  | access _ owner field =>
    rw [areEqual]
    cases hb : b.stripParens with
    | paren r inner => exact absurd hb (hbare r inner)
    | access _ owner' field' => simp [canon, areEqual_iff owner owner', and_comm]
    | _ => simp [canon]
  | cond _ condition thenBranch elseBranch =>
    rw [areEqual]
    cases hb : b.stripParens with
    | paren r inner => exact absurd hb (hbare r inner)
    | cond _ condition' thenBranch' elseBranch' =>
      simp [canon, areEqual_iff condition condition', areEqual_iff thenBranch thenBranch',
        areEqual_iff elseBranch elseBranch', and_assoc]
    | _ => simp [canon]
  | case _ scrutinee branches =>
    rw [areEqual]
    cases hb : b.stripParens with
    | paren r inner => exact absurd hb (hbare r inner)
    | case _ scrutinee' branches' =>
      simp [canon, areEqual_iff scrutinee scrutinee', branchesEqual_iff branches branches']
    | _ => simp [canon]
  | lambda _ params body =>
    rw [areEqual]
    cases hb : b.stripParens with
    | paren r inner => exact absurd hb (hbare r inner)
    | lambda _ params' body' =>
      simp [canon, Pattern.sameShapes_iff params params', areEqual_iff body body']
    | _ => simp [canon]

theorem allEqual_iff (as bs : List Expr) :
    ctx.allEqual as bs = true ↔ ctx.canonAll as = ctx.canonAll bs := by
  match as, bs with
  | [], [] => simp [allEqual]
  | a :: as, b :: bs => simp [allEqual, canonAll, areEqual_iff a b, allEqual_iff as bs]
  | [], _ :: _ | _ :: _, [] => simp [allEqual, canonAll]

theorem settersEqual_iff (ss ss' : List Setter) :
    ctx.settersEqual ss ss' = true ↔ ctx.canonSetters ss = ctx.canonSetters ss' := by
  match ss, ss' with
  | [], [] => simp [settersEqual]
  | .mk field value :: ss, .mk field' value' :: ss' =>
    simp [settersEqual, canonSetters, areEqual_iff value value', settersEqual_iff ss ss']
  | [], .mk _ _ :: _ | .mk _ _ :: _, [] => simp [settersEqual, canonSetters]

theorem branchesEqual_iff (bs bs' : List Branch) :
    ctx.branchesEqual bs bs' = true ↔ ctx.canonBranches bs = ctx.canonBranches bs' := by
  match bs, bs' with
  | [], [] => simp [branchesEqual]
  | .mk pattern body :: bs, .mk pattern' body' :: bs' =>
    simp [branchesEqual, canonBranches, Pattern.sameShape_iff pattern pattern',
      areEqual_iff body body', branchesEqual_iff bs bs']
  | [], .mk _ _ :: _ | .mk _ _ :: _, [] => simp [branchesEqual, canonBranches]

end

mutual

/-- Erasing places and parentheses does not change the canonical form. -/
theorem canon_erase (e : Expr) : ctx.canon e.erase = ctx.canon e := by
  cases e with
  | paren _ inner =>
    rw [Expr.erase, canon]
    exact canon_erase inner
  | app _ fn args => simp only [Expr.erase, canon, canon_erase fn, canonAll_erase args]
  | binary _ _ left right => simp only [Expr.erase, canon, canon_erase left, canon_erase right]
  | negate _ inner => simp only [Expr.erase, canon, canon_erase inner]
  | list _ items | tuple _ items => simp only [Expr.erase, canon, canonAll_erase items]
  | record _ setters | update _ _ setters =>
    simp only [Expr.erase, canon, canonSetters_erase setters]
  | access _ owner _ => simp only [Expr.erase, canon, canon_erase owner]
  | cond _ condition thenBranch elseBranch =>
    simp only [Expr.erase, canon, canon_erase condition, canon_erase thenBranch,
      canon_erase elseBranch]
  | case _ scrutinee branches =>
    simp only [Expr.erase, canon, canon_erase scrutinee, canonBranches_erase branches]
  | lambda _ params body =>
    simp only [Expr.erase, canon, Pattern.canonAll_erase, canon_erase body]
  | _ => simp [canon]

theorem canonAll_erase (es : List Expr) :
    ctx.canonAll (Expr.eraseAll es) = ctx.canonAll es := by
  match es with
  | [] => rfl
  | e :: es => rw [Expr.eraseAll, canonAll, canonAll, canon_erase e, canonAll_erase es]

theorem canonSetters_erase (ss : List Setter) :
    ctx.canonSetters (Expr.eraseSetters ss) = ctx.canonSetters ss := by
  match ss with
  | [] => rfl
  | .mk field value :: ss =>
    rw [Expr.eraseSetters, canonSetters, canonSetters, canon_erase value, canonSetters_erase ss]

theorem canonBranches_erase (bs : List Branch) :
    ctx.canonBranches (Expr.eraseBranches bs) = ctx.canonBranches bs := by
  match bs with
  | [] => rfl
  | .mk pattern body :: bs =>
    rw [Expr.eraseBranches, canonBranches, canonBranches, pattern.canon_erase, canon_erase body,
      canonBranches_erase bs]

end

/-- Equality does not see places and parentheses. -/
@[simp] theorem areEqual_erase (a b : Expr) : ctx.areEqual a.erase b.erase = ctx.areEqual a b := by
  rw [Bool.eq_iff_iff, areEqual_iff, areEqual_iff, canon_erase, canon_erase]

/-- Equality is the equality of canonical forms. It is an equivalence, and it stays the same when
all parentheses and places are erased. -/
theorem areEqual_iff_same_canon :
    (∀ a b, ctx.areEqual a b = true ↔ ctx.canon a = ctx.canon b) ∧
      Equivalence (fun a b => ctx.areEqual a b = true) ∧
      ∀ a b, ctx.areEqual a.erase b.erase = ctx.areEqual a b := by
  refine ⟨ctx.areEqual_iff, ⟨?_, ?_, ?_⟩, ctx.areEqual_erase⟩
  · intro a
    exact (ctx.areEqual_iff a a).mpr rfl
  · intro a b hab
    have hcanon := (ctx.areEqual_iff a b).mp hab
    exact (ctx.areEqual_iff b a).mpr hcanon.symm
  · intro a b c hab hbc
    have hleft := (ctx.areEqual_iff a b).mp hab
    have hright := (ctx.areEqual_iff b c).mp hbc
    exact (ctx.areEqual_iff a c).mpr (hleft.trans hright)

end Context

end Terse
