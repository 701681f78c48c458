import Terse.Tree.Module

/-!
# Equality of trees

Whether two patterns, expressions or modules are equal, places included, can be decided.
-/

namespace Terse

/-! ## Patterns -/

namespace Pattern

mutual

/-- Two patterns are equal. -/
def same : Pattern → Pattern → Bool
  | wild r, q => match q with
    | wild r' => r == r'
    | _ => false
  | unit r, q => match q with
    | unit r' => r == r'
    | _ => false
  | var r name, q => match q with
    | var r' name' => r == r' && name == name'
    | _ => false
  | literal r value, q => match q with
    | literal r' value' => r == r' && value == value'
    | _ => false
  | ctor r name args, q => match q with
    | ctor r' name' args' => r == r' && name == name' && sameAll args args'
    | _ => false
  | tuple r items, q => match q with
    | tuple r' items' => r == r' && sameAll items items'
    | _ => false
  | list r items, q => match q with
    | list r' items' => r == r' && sameAll items items'
    | _ => false
  | cons r head tail, q => match q with
    | cons r' head' tail' => r == r' && same head head' && same tail tail'
    | _ => false
  | record r fields, q => match q with
    | record r' fields' => r == r' && fields == fields'
    | _ => false
  | named r inner name, q => match q with
    | named r' inner' name' => r == r' && same inner inner' && name == name'
    | _ => false
  | paren r inner, q => match q with
    | paren r' inner' => r == r' && same inner inner'
    | _ => false

/-- The patterns of two lists are equal. -/
def sameAll : List Pattern → List Pattern → Bool
  | [], [] => true
  | p :: ps, q :: qs => same p q && sameAll ps qs
  | _, _ => false

end

mutual

/-- The comparison of patterns decides equality. -/
theorem same_iff (p q : Pattern) : p.same q = true ↔ p = q := by
  cases p with
  | ctor _ _ args => cases q <;> simp [same, sameAll_iff args, and_assoc]
  | tuple _ items => cases q <;> simp [same, sameAll_iff items]
  | list _ items => cases q <;> simp [same, sameAll_iff items]
  | cons _ head tail => cases q <;> simp [same, same_iff head, same_iff tail, and_assoc]
  | named _ inner _ => cases q <;> simp [same, same_iff inner, and_assoc]
  | paren _ inner => cases q <;> simp [same, same_iff inner]
  | _ => cases q <;> simp [same]

theorem sameAll_iff (ps qs : List Pattern) : sameAll ps qs = true ↔ ps = qs := by
  match ps, qs with
  | [], [] => simp [sameAll]
  | p :: ps, q :: qs => simp [sameAll, same_iff p, sameAll_iff ps]
  | [], _ :: _ | _ :: _, [] => simp [sameAll]

end

instance : DecidableEq Pattern := fun p q => decidable_of_iff _ (same_iff p q)

end Pattern

/-! ## Expressions -/

namespace Expr

mutual

/-- Two expressions are equal. -/
def same : Expr → Expr → Bool
  | unit r, b => match b with
    | unit r' => r == r'
    | _ => false
  | literal r value, b => match b with
    | literal r' value' => r == r' && value == value'
    | _ => false
  | var r name, b => match b with
    | var r' name' => r == r' && name == name'
    | _ => false
  | operatorFn r symbol, b => match b with
    | operatorFn r' symbol' => r == r' && symbol == symbol'
    | _ => false
  | accessor r field, b => match b with
    | accessor r' field' => r == r' && field == field'
    | _ => false
  | app r fn args, b => match b with
    | app r' fn' args' => r == r' && same fn fn' && sameAll args args'
    | _ => false
  | binary r symbol left right, b => match b with
    | binary r' symbol' left' right' =>
      r == r' && symbol == symbol' && same left left' && same right right'
    | _ => false
  | negate r inner, b => match b with
    | negate r' inner' => r == r' && same inner inner'
    | _ => false
  | paren r inner, b => match b with
    | paren r' inner' => r == r' && same inner inner'
    | _ => false
  | list r items, b => match b with
    | list r' items' => r == r' && sameAll items items'
    | _ => false
  | tuple r items, b => match b with
    | tuple r' items' => r == r' && sameAll items items'
    | _ => false
  | record r setters, b => match b with
    | record r' setters' => r == r' && sameSetters setters setters'
    | _ => false
  | update r base setters, b => match b with
    | update r' base' setters' => r == r' && base == base' && sameSetters setters setters'
    | _ => false
  | access r owner field, b => match b with
    | access r' owner' field' => r == r' && same owner owner' && field == field'
    | _ => false
  | cond r condition thenBranch elseBranch, b => match b with
    | cond r' condition' thenBranch' elseBranch' =>
      r == r' && same condition condition' && same thenBranch thenBranch' &&
        same elseBranch elseBranch'
    | _ => false
  | case r scrutinee branches, b => match b with
    | case r' scrutinee' branches' =>
      r == r' && same scrutinee scrutinee' && sameBranches branches branches'
    | _ => false
  | lambda r params body, b => match b with
    | lambda r' params' body' => r == r' && params == params' && same body body'
    | _ => false

/-- The expressions of two lists are equal. -/
def sameAll : List Expr → List Expr → Bool
  | [], [] => true
  | a :: as, b :: bs => same a b && sameAll as bs
  | _, _ => false

/-- The setters of two lists are equal. -/
def sameSetters : List Setter → List Setter → Bool
  | [], [] => true
  | .mk field value :: ss, .mk field' value' :: ss' =>
    field == field' && same value value' && sameSetters ss ss'
  | _, _ => false

/-- The branches of two lists are equal. -/
def sameBranches : List Branch → List Branch → Bool
  | [], [] => true
  | .mk pattern body :: bs, .mk pattern' body' :: bs' =>
    pattern == pattern' && same body body' && sameBranches bs bs'
  | _, _ => false

end

mutual

/-- The comparison of expressions decides equality. -/
theorem same_iff (a b : Expr) : a.same b = true ↔ a = b := by
  cases a with
  | app _ fn args => cases b <;> simp [same, same_iff fn, sameAll_iff args, and_assoc]
  | binary _ _ left right => cases b <;> simp [same, same_iff left, same_iff right, and_assoc]
  | negate _ inner | paren _ inner => cases b <;> simp [same, same_iff inner]
  | list _ items | tuple _ items => cases b <;> simp [same, sameAll_iff items]
  | record _ setters => cases b <;> simp [same, sameSetters_iff setters]
  | update _ _ setters => cases b <;> simp [same, sameSetters_iff setters, and_assoc]
  | access _ owner _ => cases b <;> simp [same, same_iff owner, and_assoc]
  | cond _ condition thenBranch elseBranch =>
    cases b <;>
      simp [same, same_iff condition, same_iff thenBranch, same_iff elseBranch, and_assoc]
  | case _ scrutinee branches =>
    cases b <;> simp [same, same_iff scrutinee, sameBranches_iff branches, and_assoc]
  | lambda _ _ body => cases b <;> simp [same, same_iff body, and_assoc]
  | _ => cases b <;> simp [same]

theorem sameAll_iff (as bs : List Expr) : sameAll as bs = true ↔ as = bs := by
  match as, bs with
  | [], [] => simp [sameAll]
  | a :: as, b :: bs => simp [sameAll, same_iff a, sameAll_iff as]
  | [], _ :: _ | _ :: _, [] => simp [sameAll]

theorem sameSetters_iff (ss ss' : List Setter) : sameSetters ss ss' = true ↔ ss = ss' := by
  match ss, ss' with
  | [], [] => simp [sameSetters]
  | .mk _ value :: ss, .mk _ _ :: ss' =>
    simp [sameSetters, same_iff value, sameSetters_iff ss]
  | [], _ :: _ | .mk _ _ :: _, [] => simp [sameSetters]

theorem sameBranches_iff (bs bs' : List Branch) : sameBranches bs bs' = true ↔ bs = bs' := by
  match bs, bs' with
  | [], [] => simp [sameBranches]
  | .mk _ body :: bs, .mk _ _ :: bs' =>
    simp [sameBranches, same_iff body, sameBranches_iff bs]
  | [], _ :: _ | .mk _ _ :: _, [] => simp [sameBranches]

end

instance : DecidableEq Expr := fun a b => decidable_of_iff _ (same_iff a b)

end Expr

/-! ## Modules -/

deriving instance DecidableEq for ValueDecl, Declaration, Module

end Terse
