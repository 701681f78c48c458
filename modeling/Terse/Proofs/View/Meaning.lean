import Terse.Proofs.View.Agreement
import Terse.Proofs.View.Call

/-!
# The value of an expression

Expressions have values. All that is asked of them is that the names of Basics, parentheses, calls
and the operators and conditionals of Boolean algebra mean what they usually do, and that
expressions count as equal only if their values are. What is known of an expression by its text
then says what its value is.
-/

namespace Terse

/-! ## Calls -/

theorem Call.range_of_within {ctx : Context} {range : Range} {e : Expr} {call : Call}
    (h : within ctx range e = some call) : call.range = range := by
  rw [within_eq_some_iff] at h
  induction h with
  | paren _ ih => exact ih
  | var | app | pipeRight | pipeLeft => rfl

/-! ## Names that are written -/

namespace Context

/-- The reference that fixes write for a value of a module. -/
def reference (ctx : Context) (n : ResolvedName) : QualifiedName :=
  ctx.module.lookup.qualify n.path n.name ctx.scope

/-- The reference that fixes write for a value of a module means this value. -/
def WritesName (ctx : Context) (n : ResolvedName) : Prop := ctx.resolve (ctx.reference n) = some n

instance (ctx : Context) (n : ResolvedName) : Decidable (ctx.WritesName n) :=
  inferInstanceAs (Decidable (ctx.resolve (ctx.reference n) = some n))

end Context

/-! ## Values of expressions -/

/-- An interpretation of expressions, at a place where names mean what the context says. -/
structure Meaning (ctx : Context) (Value : Type) where
  value : Expr → Value
  bool : Bool → Value
  negation : Value
  apply : Value → Value → Value
  bool_injective : Function.Injective bool
  apply_negation : ∀ b, apply negation (bool b) = bool (!b)
  boolean : ∀ r q b, ctx.resolve q = some ⟨Core.basics, boolName b⟩ → value (.var r q) = bool b
  not : ∀ r q, ctx.resolve q = some ⟨Core.basics, "not"⟩ → value (.var r q) = negation
  paren : ∀ r e, value (.paren r e) = value e
  app : ∀ r fn args, value (.app r fn args) = (args.map value).foldl apply (value fn)
  pipeRight : ∀ r a fn, value (.binary r "|>" a fn) = apply (value fn) (value a)
  pipeLeft : ∀ r fn a, value (.binary r "<|" fn a) = apply (value fn) (value a)
  or : ∀ r left right a b, value left = bool a → value right = bool b →
    value (.binary r "||" left right) = bool (a || b)
  and : ∀ r left right a b, value left = bool a → value right = bool b →
    value (.binary r "&&" left right) = bool (a && b)
  equal : ∀ r left right b, (value left = value right ↔ b = true) →
    value (.binary r "==" left right) = bool b
  unequal : ∀ r left right b, (value left = value right ↔ b = true) →
    value (.binary r "/=" left right) = bool (!b)
  cond : ∀ r condition thenBranch elseBranch b, value condition = bool b →
    value (.cond r condition thenBranch elseBranch) = value (if b then thenBranch else elseBranch)
  areEqual : ∀ a b, ctx.areEqual a b = true → value a = value b

namespace Meaning

variable {ctx : Context} {Value : Type} (M : Meaning ctx Value)

/-- The expression is a boolean. -/
def IsBool (e : Expr) : Prop := ∃ b, M.value e = M.bool b

/-- What the types of a node ask of its operands: those of a boolean operator are booleans, as are
conditions and what is negated, and a boolean is compared with a boolean. -/
structure Typed (e : Expr) : Prop where
  operands : ∀ r symbol left right, e = .binary r symbol left right →
    symbol = "||" ∨ symbol = "&&" → M.IsBool left ∧ M.IsBool right
  compared : ∀ r symbol left right, e = .binary r symbol left right →
    symbol = "==" ∨ symbol = "/=" → (M.IsBool left ↔ M.IsBool right)
  condition : ∀ r condition thenBranch elseBranch,
    e = .cond r condition thenBranch elseBranch → M.IsBool condition
  negated : ∀ a, ctx.argOfCall? e Core.basics "not" = some a → M.IsBool a

variable {M} {e : Expr}

/-- Parentheses do not change a value. -/
theorem value_stripParens (e : Expr) : M.value e.stripParens = M.value e :=
  Expr.apply_stripParens M.paren e

/-- A reference to a boolean or to `not` has the value of that name. -/
theorem value_of_reference {q : QualifiedName} {r : Range} {name : String}
    (h : e.stripParens = .var r q) (hq : ctx.resolve q = some ⟨Core.basics, name⟩) :
    (∀ b, name = boolName b → M.value e = M.bool b) ∧ (name = "not" → M.value e = M.negation) := by
  rw [← value_stripParens, h]
  constructor
  · rintro b rfl
    exact M.boolean r q b hq
  · rintro rfl
    exact M.not r q hq

/-- A reference to a name is a variable that resolves to it, in parentheses or not. -/
theorem isReference_iff {path : ModuleName} {name : String} :
    ctx.isReference e path name = true ↔
      ∃ r q, e.stripParens = .var r q ∧ ctx.resolve q = some ⟨path, name⟩ := by
  unfold Context.isReference Context.resolveExpr
  cases e.stripParens <;> simp

/-- An expression that is known to be a boolean has its value. -/
theorem value_of_bool? {b : Bool} (h : ctx.bool? e = some b) : M.value e = M.bool b := by
  unfold Context.bool? at h
  split at h
  · rename_i href
    rcases isReference_iff.mp href with ⟨r, q, he, hq⟩
    cases h
    exact (value_of_reference he hq).1 true rfl
  · split at h
    · rename_i href
      rcases isReference_iff.mp href with ⟨r, q, he, hq⟩
      cases h
      exact (value_of_reference he hq).1 false rfl
    · cases h

/-- A call of `not` is the negation applied to the arguments, however the call is written. -/
theorem value_of_call {range : Range} {call : Call} (h : Call.within ctx range e = some call)
    (hnot : call.isOf Core.basics "not" = true) :
    M.value e = (call.args.map M.value).foldl M.apply M.negation := by
  rw [Call.within_eq_some_iff] at h
  induction h with
  | paren _ ih =>
    rw [M.paren]
    exact ih hnot
  | @var _ r name function hfunction =>
    rw [Call.isOf, beq_iff_eq] at hnot
    exact M.not r name (hfunction.trans (congrArg some hnot))
  | app _ _ ih => rw [M.app, ih hnot, List.map_append, List.foldl_append]
  | pipeRight _ _ ih =>
    rw [M.pipeRight, ih hnot, List.map_append, List.foldl_append]
    rfl
  | pipeLeft _ _ ih =>
    rw [M.pipeLeft, ih hnot, List.map_append, List.foldl_append]
    rfl

/-- A call of `not` has the negation of its argument as its value. -/
theorem value_of_argOfCall? {a : Expr} (h : ctx.argOfCall? e Core.basics "not" = some a) :
    M.value e = M.apply M.negation (M.value a) := by
  rcases Context.argOfCall?_eq_some_iff.mp h with ⟨call, hcall, hnot, hargs⟩
  rw [M.value_of_call hcall hnot, hargs]
  rfl

end Meaning

/-! ## An interpretation -/

/-- A boolean, the negation, or a value that is neither. -/
inductive Worth where
  | bool (b : Bool)
  | negation
  | other
deriving DecidableEq

namespace Worth

/-- Applying the negation to a boolean gives the other one. -/
def apply : Worth → Worth → Worth
  | negation, bool b => bool (!b)
  | _, _ => other

/-- A function of booleans, on any values. -/
def lift (op : Bool → Bool → Bool) : Worth → Worth → Worth
  | bool a, bool b => bool (op a b)
  | _, _ => other

/-- What an operator gives. -/
def operate (symbol : String) (a b : Worth) : Worth :=
  if symbol = "|>" then apply b a
  else if symbol = "<|" then apply a b
  else if symbol = "||" then lift or a b
  else if symbol = "&&" then lift and a b
  else if symbol = "==" then bool (a = b)
  else if symbol = "/=" then bool (a ≠ b)
  else other

/-- What a reference to a value of a module is. -/
def ofName (r : ResolvedName) : Worth :=
  if r = ⟨Core.basics, "True"⟩ then bool true
  else if r = ⟨Core.basics, "False"⟩ then bool false
  else if r = ⟨Core.basics, "not"⟩ then negation
  else other

/-- Choose by a condition. -/
def choose (condition yes no : Worth) : Worth :=
  match condition with
  | bool b => if b then yes else no
  | _ => other

end Worth

section

variable (ctx : Context) (env : QualifiedName → Bool)

mutual

/-- The value of an expression, where variables are the booleans that an environment gives them. -/
def Expr.worth : Expr → Worth
  | .var _ q => match ctx.resolve q with
    | some r => .ofName r
    | none => .bool (env q)
  | .paren _ inner => inner.worth
  | .app _ fn args => (worthAll args).foldl Worth.apply fn.worth
  | .binary _ symbol left right => .operate symbol left.worth right.worth
  | .cond _ condition thenBranch elseBranch =>
    .choose condition.worth thenBranch.worth elseBranch.worth
  | _ => .other

/-- The values of the expressions of a list. -/
def Expr.worthAll : List Expr → List Worth
  | [] => []
  | e :: es => e.worth :: worthAll es

end

end

namespace Expr

variable (ctx : Context) (env : QualifiedName → Bool)

theorem worthAll_eq_map (es : List Expr) : worthAll ctx env es = es.map (worth ctx env) := by
  induction es with
  | nil => rfl
  | cons e es ih => rw [worthAll, ih, List.map_cons]

/-- Parentheses do not change what an expression is worth. -/
theorem worth_stripParens (e : Expr) : e.stripParens.worth ctx env = e.worth ctx env :=
  apply_stripParens (fun _ _ => by rw [worth]) e

mutual

/-- Expressions that count as equal have the same value. -/
theorem worth_eq_of_areEqual (a b : Expr) (h : ctx.areEqual a b = true) :
    a.worth ctx env = b.worth ctx env := by
  rw [← worth_stripParens ctx env b]
  cases a with
  | paren _ inner =>
    rw [Context.areEqual] at h
    rw [worth, worth_stripParens]
    exact worth_eq_of_areEqual inner b h
  | var _ q =>
    rw [Context.areEqual] at h
    split at h
    · rename_i hb
      rw [hb, worth, worth]
      unfold Context.sameReference at h
      split at h <;> simp_all
    · cases h
  | app _ fn args =>
    rw [Context.areEqual] at h
    split at h
    · rename_i fn' args' hb
      rw [Bool.and_eq_true] at h
      rw [hb, worth, worth, worth_eq_of_areEqual fn fn' h.1, worthAll_eq_of_allEqual args args' h.2]
    · cases h
  | binary _ symbol left right =>
    rw [Context.areEqual] at h
    split at h
    · rename_i symbol' left' right' hb
      simp only [Bool.and_eq_true, beq_iff_eq] at h
      rw [hb, worth, worth, h.1.1, worth_eq_of_areEqual left left' h.1.2,
        worth_eq_of_areEqual right right' h.2]
    · cases h
  | cond _ condition thenBranch elseBranch =>
    rw [Context.areEqual] at h
    split at h
    · rename_i condition' thenBranch' elseBranch' hb
      simp only [Bool.and_eq_true] at h
      rw [hb, worth, worth, worth_eq_of_areEqual condition condition' h.1.1,
        worth_eq_of_areEqual thenBranch thenBranch' h.1.2,
        worth_eq_of_areEqual elseBranch elseBranch' h.2]
    · cases h
  | unit | literal | operatorFn | accessor | negate | list | tuple | record | update | access | case
  | lambda =>
    rw [Context.areEqual] at h
    split at h
    · rename_i hb
      rw [hb]
      simp [worth]
    · cases h

theorem worthAll_eq_of_allEqual (as bs : List Expr) (h : ctx.allEqual as bs = true) :
    worthAll ctx env as = worthAll ctx env bs := by
  match as, bs with
  | [], [] => rfl
  | a :: as, b :: bs =>
    rw [Context.allEqual, Bool.and_eq_true] at h
    rw [worthAll, worthAll, worth_eq_of_areEqual a b h.1, worthAll_eq_of_allEqual as bs h.2]
  | [], _ :: _ | _ :: _, [] => simp [Context.allEqual] at h

end

end Expr

/-- The evaluation in an environment is an interpretation. -/
def Meaning.ofEnvironment (ctx : Context) (env : QualifiedName → Bool) : Meaning ctx Worth where
  value := Expr.worth ctx env
  bool := .bool
  negation := .negation
  apply := Worth.apply
  bool_injective _ _ h := Worth.bool.inj h
  apply_negation _ := rfl
  boolean r q b h := by
    rw [Expr.worth, h]
    cases b <;> rfl
  not r q h := by
    rw [Expr.worth, h]
    rfl
  paren r e := by rw [Expr.worth]
  app r fn args := by rw [Expr.worth, Expr.worthAll_eq_map]
  pipeRight r a fn := by rw [Expr.worth]; rfl
  pipeLeft r fn a := by rw [Expr.worth]; rfl
  or r left right a b ha hb := by rw [Expr.worth, ha, hb]; rfl
  and r left right a b ha hb := by rw [Expr.worth, ha, hb]; rfl
  equal r left right b h := by
    rw [Expr.worth]
    cases b <;> simp_all [Worth.operate]
  unequal r left right b h := by
    rw [Expr.worth]
    cases b <;> simp_all [Worth.operate]
  cond r c t e b h := by
    rw [Expr.worth, h]
    cases b <;> rfl
  areEqual := Expr.worth_eq_of_areEqual ctx env

end Terse
