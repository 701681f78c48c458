import Terse.Proofs.View.Shape

/-!
# Equality under local binders

Equality of expressions compares references in one scope, also below patterns that bind variables
inside the expressions. The comparison that goes along with the binders is stricter: here is by how
much. Both are the same walk over two trees, with another test of the references that it meets.
-/

namespace Terse

/-! ## Patterns of the same shape -/

namespace Pattern

variable {p q : Pattern} {ps qs : List Pattern}

/-- Patterns of the same shape bind the same variables. -/
theorem boundVars_eq_of_sameShape (h : p.sameShape q = true) : p.boundVars = q.boundVars :=
  congrArg Answers.boundVars (answers_eq_of_sameShape p q h)

theorem boundVarsAll_eq_of_sameShapes (h : sameShapes ps qs = true) :
    boundVarsAll ps = boundVarsAll qs :=
  congrArg Answers.boundVars (answersAll_eq_of_sameShapes ps qs h)

end Pattern

/-! ## Walks over two expressions -/

/-- A test of two references, each under the variables that are bound around it inside its own
expression. -/
abbrev ReferenceTest := List String → List String → QualifiedName → QualifiedName → Bool

namespace Expr

mutual

/-- Two expressions are equal apart from their references, and these pass a test one by one. Both
expressions keep their own account of what they bind: a lambda adds the variables of its
parameters, and a branch those of its pattern. -/
def alike (test : ReferenceTest) (bound bound' : List String) : Expr → Expr → Bool
  | .paren _ inner, other => alike test bound bound' inner other
  | .unit _, other => match other.stripParens with
    | .unit _ => true
    | _ => false
  | .literal _ a, other => match other.stripParens with
    | .literal _ b => a.sameValue b
    | _ => false
  | .var _ a, other => match other.stripParens with
    | .var _ b => test bound bound' a b
    | _ => false
  | .operatorFn _ a, other => match other.stripParens with
    | .operatorFn _ b => a == b
    | _ => false
  | .accessor _ a, other => match other.stripParens with
    | .accessor _ b => a == b
    | _ => false
  | .app _ fn args, other => match other.stripParens with
    | .app _ fn' args' => alike test bound bound' fn fn' && allAlike test bound bound' args args'
    | _ => false
  | .binary _ symbol left right, other => match other.stripParens with
    | .binary _ symbol' left' right' =>
      symbol == symbol' && alike test bound bound' left left' &&
        alike test bound bound' right right'
    | _ => false
  | .negate _ inner, other => match other.stripParens with
    | .negate _ inner' => alike test bound bound' inner inner'
    | _ => false
  | .list _ items, other => match other.stripParens with
    | .list _ items' => allAlike test bound bound' items items'
    | _ => false
  | .tuple _ items, other => match other.stripParens with
    | .tuple _ items' => allAlike test bound bound' items items'
    | _ => false
  | .record _ setters, other => match other.stripParens with
    | .record _ setters' => settersAlike test bound bound' setters setters'
    | _ => false
  | .update _ base setters, other => match other.stripParens with
    | .update _ base' setters' =>
      base.value == base'.value && settersAlike test bound bound' setters setters'
    | _ => false
  | .access _ owner field, other => match other.stripParens with
    | .access _ owner' field' =>
      field.value == field'.value && alike test bound bound' owner owner'
    | _ => false
  | .cond _ condition thenBranch elseBranch, other => match other.stripParens with
    | .cond _ condition' thenBranch' elseBranch' =>
      alike test bound bound' condition condition' &&
        alike test bound bound' thenBranch thenBranch' &&
        alike test bound bound' elseBranch elseBranch'
    | _ => false
  | .case _ scrutinee branches, other => match other.stripParens with
    | .case _ scrutinee' branches' =>
      alike test bound bound' scrutinee scrutinee' &&
        branchesAlike test bound bound' branches branches'
    | _ => false
  | .lambda _ params body, other => match other.stripParens with
    | .lambda _ params' body' =>
      Pattern.sameShapes params params' &&
        alike test (bound ++ Pattern.boundVarsAll params) (bound' ++ Pattern.boundVarsAll params')
          body body'
    | _ => false

/-- The expressions of two lists are alike one by one. -/
def allAlike (test : ReferenceTest) (bound bound' : List String) : List Expr → List Expr → Bool
  | [], [] => true
  | a :: as, b :: bs => alike test bound bound' a b && allAlike test bound bound' as bs
  | _, _ => false

/-- The setters of two lists set the same fields to values that are alike. -/
def settersAlike (test : ReferenceTest) (bound bound' : List String) :
    List Setter → List Setter → Bool
  | [], [] => true
  | .mk field value :: ss, .mk field' value' :: ss' =>
    field.value == field'.value && alike test bound bound' value value' &&
      settersAlike test bound bound' ss ss'
  | _, _ => false

/-- The branches of two lists match the same patterns and have bodies that are alike. -/
def branchesAlike (test : ReferenceTest) (bound bound' : List String) :
    List Branch → List Branch → Bool
  | [], [] => true
  | .mk pattern body :: bs, .mk pattern' body' :: bs' =>
    pattern.sameShape pattern' &&
      alike test (bound ++ pattern.boundVars) (bound' ++ pattern'.boundVars) body body' &&
      branchesAlike test bound bound' bs bs'
  | _, _ => false

end

end Expr

/-! ## Equality as a walk -/

namespace Context

variable (ctx : Context)

mutual

/-- Equality is the walk that asks whether references mean the same, whatever is bound around
them. -/
theorem areEqual_eq_alike (bound bound' : List String) (a b : Expr) :
    ctx.areEqual a b = a.alike (fun _ _ => ctx.sameReference) bound bound' b := by
  cases a with
  | paren _ inner =>
    rw [areEqual, Expr.alike]
    exact areEqual_eq_alike bound bound' inner b
  | unit | literal | var | operatorFn | accessor =>
    unfold areEqual Expr.alike
    cases b.stripParens <;> rfl
  | app _ fn args =>
    rw [areEqual, Expr.alike]
    cases b.stripParens with
    | app _ fn' args' =>
      simp only [areEqual_eq_alike bound bound' fn, allEqual_eq_allAlike bound bound' args]
    | _ => rfl
  | binary _ symbol left right =>
    rw [areEqual, Expr.alike]
    cases b.stripParens with
    | binary _ symbol' left' right' =>
      simp only [areEqual_eq_alike bound bound' left, areEqual_eq_alike bound bound' right]
    | _ => rfl
  | negate _ inner =>
    rw [areEqual, Expr.alike]
    cases b.stripParens with
    | negate _ inner' => exact areEqual_eq_alike bound bound' inner inner'
    | _ => rfl
  | list _ items =>
    rw [areEqual, Expr.alike]
    cases b.stripParens with
    | list _ items' => exact allEqual_eq_allAlike bound bound' items items'
    | _ => rfl
  | tuple _ items =>
    rw [areEqual, Expr.alike]
    cases b.stripParens with
    | tuple _ items' => exact allEqual_eq_allAlike bound bound' items items'
    | _ => rfl
  | record _ setters =>
    rw [areEqual, Expr.alike]
    cases b.stripParens with
    | record _ setters' => exact settersEqual_eq_settersAlike bound bound' setters setters'
    | _ => rfl
  | update _ base setters =>
    rw [areEqual, Expr.alike]
    cases b.stripParens with
    | update _ base' setters' => simp only [settersEqual_eq_settersAlike bound bound' setters]
    | _ => rfl
  | access _ owner field =>
    rw [areEqual, Expr.alike]
    cases b.stripParens with
    | access _ owner' field' => simp only [areEqual_eq_alike bound bound' owner]
    | _ => rfl
  | cond _ condition thenBranch elseBranch =>
    rw [areEqual, Expr.alike]
    cases b.stripParens with
    | cond _ condition' thenBranch' elseBranch' =>
      simp only [areEqual_eq_alike bound bound' condition,
        areEqual_eq_alike bound bound' thenBranch, areEqual_eq_alike bound bound' elseBranch]
    | _ => rfl
  | case _ scrutinee branches =>
    rw [areEqual, Expr.alike]
    cases b.stripParens with
    | case _ scrutinee' branches' =>
      simp only [areEqual_eq_alike bound bound' scrutinee,
        branchesEqual_eq_branchesAlike bound bound' branches]
    | _ => rfl
  | lambda _ params body =>
    rw [areEqual, Expr.alike]
    cases b.stripParens with
    | lambda _ params' body' =>
      -- equality does not ask what is bound, so that the walk may take the parameters along
      simp only [areEqual_eq_alike (bound ++ Pattern.boundVarsAll params)
        (bound' ++ Pattern.boundVarsAll params') body]
    | _ => rfl

/-- Equality of lists is the walk over both that compares references. -/
theorem allEqual_eq_allAlike (bound bound' : List String) (as bs : List Expr) :
    ctx.allEqual as bs = Expr.allAlike (fun _ _ => ctx.sameReference) bound bound' as bs := by
  match as, bs with
  | [], [] => rw [allEqual, Expr.allAlike]
  | a :: as, b :: bs =>
    rw [allEqual, Expr.allAlike, areEqual_eq_alike bound bound' a,
      allEqual_eq_allAlike bound bound' as]
  | [], _ :: _ | _ :: _, [] => simp only [allEqual, Expr.allAlike]

theorem settersEqual_eq_settersAlike (bound bound' : List String) (ss ss' : List Setter) :
    ctx.settersEqual ss ss' =
      Expr.settersAlike (fun _ _ => ctx.sameReference) bound bound' ss ss' := by
  match ss, ss' with
  | [], [] => rw [settersEqual, Expr.settersAlike]
  | .mk field value :: ss, .mk field' value' :: ss' =>
    rw [settersEqual, Expr.settersAlike, areEqual_eq_alike bound bound' value,
      settersEqual_eq_settersAlike bound bound' ss]
  | [], _ :: _ | _ :: _, [] => simp only [settersEqual, Expr.settersAlike]

theorem branchesEqual_eq_branchesAlike (bound bound' : List String) (bs bs' : List Branch) :
    ctx.branchesEqual bs bs' =
      Expr.branchesAlike (fun _ _ => ctx.sameReference) bound bound' bs bs' := by
  match bs, bs' with
  | [], [] => rw [branchesEqual, Expr.branchesAlike]
  | .mk pattern body :: bs, .mk pattern' body' :: bs' =>
    rw [branchesEqual, Expr.branchesAlike, branchesEqual_eq_branchesAlike bound bound' bs,
      areEqual_eq_alike (bound ++ pattern.boundVars) (bound' ++ pattern'.boundVars) body]
  | [], _ :: _ | _ :: _, [] => simp only [branchesEqual, Expr.branchesAlike]

end

end Context

/-! ## Tests of two parts -/

/-- Where both sides bind the same variables, the first test asks for what the two others ask
for. -/
def ReferenceTest.Asks (r s t : ReferenceTest) : Prop :=
  ∀ bound q q', r bound bound q q' = (s bound bound q q' && t bound bound q q')

theorem and_and_and_comm : ∀ p q r s : Bool, (p && q && (r && s)) = (p && r && (q && s)) := by
  decide

theorem and_and_distrib : ∀ p q r : Bool, (p && (q && r)) = (p && q && (p && r)) := by
  decide

theorem and_and_and_distrib : ∀ p q r a b : Bool,
    (p && (q && r) && (a && b)) = (p && q && a && (p && r && b)) := by
  decide

namespace Expr

variable {r s t : ReferenceTest}

mutual

/-- A walk with a test of two parts is two walks. Expressions that are alike bind the same
variables in the same places, so that it is enough to know the parts of the test there. -/
theorem alike_and (h : r.Asks s t) (bound : List String) (a b : Expr) :
    a.alike r bound bound b = (a.alike s bound bound b && a.alike t bound bound b) := by
  cases a with
  | paren _ inner =>
    simp only [alike]
    exact alike_and h bound inner b
  | var _ q =>
    simp only [alike]
    cases b.stripParens with
    | var _ q' => exact h bound q q'
    | _ => rfl
  | unit | literal | operatorFn | accessor =>
    simp only [alike]
    rw [Bool.and_self]
  | app _ fn args =>
    simp only [alike]
    cases b.stripParens with
    | app _ fn' args' =>
      simp only [alike_and h bound fn, allAlike_and h bound args]
      exact and_and_and_comm _ _ _ _
    | _ => rfl
  | binary _ symbol left right =>
    simp only [alike]
    cases b.stripParens with
    | binary _ symbol' left' right' =>
      simp only [alike_and h bound left, alike_and h bound right]
      exact and_and_and_distrib _ _ _ _ _
    | _ => rfl
  | negate _ inner =>
    simp only [alike]
    cases b.stripParens with
    | negate _ inner' => exact alike_and h bound inner inner'
    | _ => rfl
  | list _ items =>
    simp only [alike]
    cases b.stripParens with
    | list _ items' => exact allAlike_and h bound items items'
    | _ => rfl
  | tuple _ items =>
    simp only [alike]
    cases b.stripParens with
    | tuple _ items' => exact allAlike_and h bound items items'
    | _ => rfl
  | record _ setters =>
    simp only [alike]
    cases b.stripParens with
    | record _ setters' => exact settersAlike_and h bound setters setters'
    | _ => rfl
  | update _ base setters =>
    simp only [alike]
    cases b.stripParens with
    | update _ base' setters' =>
      simp only [settersAlike_and h bound setters]
      exact and_and_distrib _ _ _
    | _ => rfl
  | access _ owner field =>
    simp only [alike]
    cases b.stripParens with
    | access _ owner' field' =>
      simp only [alike_and h bound owner]
      exact and_and_distrib _ _ _
    | _ => rfl
  | cond _ condition thenBranch elseBranch =>
    simp only [alike]
    cases b.stripParens with
    | cond _ condition' thenBranch' elseBranch' =>
      simp only [alike_and h bound condition, alike_and h bound thenBranch,
        alike_and h bound elseBranch]
      rw [and_and_and_comm (condition.alike s bound bound condition'), and_and_and_comm]
    | _ => rfl
  | case _ scrutinee branches =>
    simp only [alike]
    cases b.stripParens with
    | case _ scrutinee' branches' =>
      simp only [alike_and h bound scrutinee, branchesAlike_and h bound branches]
      exact and_and_and_comm _ _ _ _
    | _ => rfl
  | lambda _ params body =>
    simp only [alike]
    cases b.stripParens with
    | lambda _ params' body' =>
      dsimp only
      -- parameters of one shape bind the same variables, so that one list still does for both sides
      by_cases hparams : Pattern.sameShapes params params' = true
      · rw [← Pattern.boundVarsAll_eq_of_sameShapes hparams,
          alike_and h (bound ++ Pattern.boundVarsAll params) body]
        exact and_and_distrib _ _ _
      · simp only [hparams, Bool.false_and]
    | _ => rfl

/-- A walk that asks two questions at once over lists is the walk of each. -/
theorem allAlike_and (h : r.Asks s t) (bound : List String) (as bs : List Expr) :
    allAlike r bound bound as bs =
      (allAlike s bound bound as bs && allAlike t bound bound as bs) := by
  match as, bs with
  | [], [] => simp only [allAlike, Bool.and_self]
  | a :: as, b :: bs =>
    simp only [allAlike, alike_and h bound a, allAlike_and h bound as]
    exact and_and_and_comm _ _ _ _
  | [], _ :: _ | _ :: _, [] => simp only [allAlike, Bool.and_self]

theorem settersAlike_and (h : r.Asks s t) (bound : List String) (ss ss' : List Setter) :
    settersAlike r bound bound ss ss' =
      (settersAlike s bound bound ss ss' && settersAlike t bound bound ss ss') := by
  match ss, ss' with
  | [], [] => simp only [settersAlike, Bool.and_self]
  | .mk field value :: ss, .mk field' value' :: ss' =>
    simp only [settersAlike, alike_and h bound value, settersAlike_and h bound ss]
    exact and_and_and_distrib _ _ _ _ _
  | [], _ :: _ | _ :: _, [] => simp only [settersAlike, Bool.and_self]

theorem branchesAlike_and (h : r.Asks s t) (bound : List String) (bs bs' : List Branch) :
    branchesAlike r bound bound bs bs' =
      (branchesAlike s bound bound bs bs' && branchesAlike t bound bound bs bs') := by
  match bs, bs' with
  | [], [] => simp only [branchesAlike, Bool.and_self]
  | .mk pattern body :: bs, .mk pattern' body' :: bs' =>
    simp only [branchesAlike, branchesAlike_and h bound bs]
    by_cases hpattern : pattern.sameShape pattern' = true
    · rw [← Pattern.boundVars_eq_of_sameShape hpattern,
        alike_and h (bound ++ pattern.boundVars) body]
      exact and_and_and_distrib _ _ _ _ _
    · simp only [hpattern, Bool.false_and]
  | [], _ :: _ | _ :: _, [] => simp only [branchesAlike, Bool.and_self]

end

end Expr

/-! ## References under binders -/

/-- The reference means one of the variables that are bound. -/
def QualifiedName.isBound (bound : List String) (q : QualifiedName) : Bool :=
  !q.isQualified && bound.contains q.name

/-- References without a path differ in their names only. -/
theorem QualifiedName.eq_iff_of_bare {q q' : QualifiedName} (h : q.isQualified = false)
    (h' : q'.isQualified = false) : q = q' ↔ q.name = q'.name := by
  rcases q with ⟨⟨segments⟩, name⟩
  rcases q' with ⟨⟨segments'⟩, name'⟩
  simp only [isQualified, ModuleName.isEmpty, Bool.not_eq_false', List.isEmpty_iff] at h h'
  simp [h, h']

/-- What a reference means has the name that was written. -/
theorem Lookup.name_of_resolve {l : Lookup} {q : QualifiedName} {r : ResolvedName}
    (h : l.resolve q = some r) : r.name = q.name := by
  unfold resolve at h
  rcases Option.map_eq_some_iff.mp h with ⟨path, -, rfl⟩
  rfl

/-- Two expressions are equal apart from their references, and corresponding references either both
mean a variable that is bound inside their expressions, or none of them does. -/
def Expr.bindsAlike (a b : Expr) : Bool :=
  a.alike (fun bound bound' q q' => q.isBound bound == q'.isBound bound') [] [] b

namespace Context

variable (ctx : Context)

/-- The context under patterns that bind more variables. -/
def inside (vars : List String) : Context := { ctx with scope := ctx.scope ++ vars }

/-- Two references, each in its own context, mean the same; if neither means anything, they are
written alike. -/
def sameAcross (ctx' : Context) (q q' : QualifiedName) : Bool :=
  match ctx.resolve q, ctx'.resolve q' with
  | some x, some y => x == y
  | none, none => q == q'
  | _, _ => false

/-- The comparison that respects local binders: it compares like `areEqual`, but resolves each
reference with the variables in scope that are bound around it inside its own expression. -/
def equalInScope (a b : Expr) : Bool :=
  a.alike (fun bound bound' => (ctx.inside bound).sameAcross (ctx.inside bound')) [] [] b

variable {ctx} {q q' : QualifiedName}

/-- Inside binders a bound name resolves to nothing, and every other name as before. -/
theorem resolve_inside (bound : List String) (q : QualifiedName) :
    (ctx.inside bound).resolve q = if q.isBound bound then none else ctx.resolve q := by
  unfold resolve inside QualifiedName.isBound
  simp only [List.contains_append, Bool.and_or_distrib_left]
  cases !q.isQualified && ctx.scope.contains q.name <;>
    cases !q.isQualified && bound.contains q.name <;> rfl

/-- A reference resolves to something of its own name. -/
theorem name_of_resolve {r : ResolvedName} (h : ctx.resolve q = some r) : r.name = q.name := by
  unfold resolve at h
  split at h
  · cases h
  · exact Lookup.name_of_resolve h

/-- References without a path mean the same only if they are the same. -/
theorem sameReference_of_bare (h : q.isQualified = false) (h' : q'.isQualified = false) :
    ctx.sameReference q q' = (q == q') := by
  by_cases heq : q = q'
  · subst heq
    unfold sameReference
    cases ctx.resolve q <;> simp
  · have hname : q.name ≠ q'.name := fun hname =>
      heq ((QualifiedName.eq_iff_of_bare h h').mpr hname)
    rw [beq_eq_false_iff_ne.mpr heq]
    unfold sameReference
    split
    · rename_i x y hx hy
      rw [beq_eq_false_iff_ne]
      rintro rfl
      exact hname ((name_of_resolve hx).symm.trans (name_of_resolve hy))
    · exact beq_eq_false_iff_ne.mpr heq
    · rfl

/-- Under binders two references mean the same if they do outside and either both or none of them
mean variables that are bound. -/
theorem sameAcross_inside (bound : List String) (q q' : QualifiedName) :
    (ctx.inside bound).sameAcross (ctx.inside bound) q q' =
      (ctx.sameReference q q' && q.isBound bound == q'.isBound bound) := by
  unfold sameAcross
  rw [resolve_inside, resolve_inside]
  cases hq : q.isBound bound <;> cases hq' : q'.isBound bound
  · -- none of them is bound
    rw [beq_self_eq_true, Bool.and_true]
    rfl
  · have hne : q ≠ q' := by
      rintro rfl
      rw [hq] at hq'
      cases hq'
    simp only [Bool.false_eq_true, if_false, if_true]
    cases ctx.resolve q <;> simp [hne]
  · have hne : q ≠ q' := by
      rintro rfl
      rw [hq] at hq'
      cases hq'
    simp only [Bool.false_eq_true, if_false, if_true]
    cases ctx.resolve q' <;> simp [hne]
  · -- both are bound, and have no path
    unfold QualifiedName.isBound at hq hq'
    simp only [Bool.and_eq_true, Bool.not_eq_true'] at hq hq'
    rw [sameReference_of_bare hq.1 hq'.1, beq_self_eq_true, Bool.and_true]
    rfl

end Context

end Terse
