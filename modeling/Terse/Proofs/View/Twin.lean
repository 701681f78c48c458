import Terse.Proofs.Tree.Twin
import Terse.Proofs.View.Agreement
import Terse.Proofs.View.Call
import Terse.Rule.Family

/-!
# Views of twins

What an expression is known to be is also known of its twins, wherever they stand. The elements of
a list, the arguments of a call and the value of a constant function face those of the twin.
-/

namespace Terse

/-! ## Contexts -/

namespace Context

/-- The context at a node of another text, with the same names and variables. -/
def moved (ctx : Context) (source : SourceText) (isFree : Bool) : Context :=
  ⟨{ ctx.module with source := source }, ctx.scope, isFree⟩

variable (ctx : Context) (source : SourceText) (isFree : Bool)

/-- What a reference means does not depend on the text the node stands in. -/
theorem resolve_moved : (ctx.moved source isFree).resolve = ctx.resolve := rfl

@[simp] theorem isReference_moved : (ctx.moved source isFree).isReference = ctx.isReference := rfl

@[simp] theorem bool?_moved : (ctx.moved source isFree).bool? = ctx.bool? := rfl

@[simp] theorem qualify_moved : (ctx.moved source isFree).qualify = ctx.qualify := rfl

@[simp] theorem boolText_moved : (ctx.moved source isFree).boolText = ctx.boolText := rfl

@[simp] theorem isIdentity_moved : (ctx.moved source isFree).isIdentity = ctx.isIdentity := rfl

@[simp] theorem constant?_moved : (ctx.moved source isFree).constant? = ctx.constant? := rfl

@[simp] theorem isAlwaysBool_moved :
    (ctx.moved source isFree).isAlwaysBool = ctx.isAlwaysBool := rfl

/-- Two expressions are equal wherever they are compared. -/
@[simp] theorem areEqual_moved : (ctx.moved source isFree).areEqual = ctx.areEqual :=
  areEqual_of_resolve (ctx.resolve_moved source isFree)

/-- Which call an expression is does not depend on the text it stands in. -/
@[simp] theorem ofExpr?_moved :
    Call.ofExpr? (ctx.moved source isFree) = Call.ofExpr? ctx := by
  funext e
  exact Call.within_of_resolve (ctx.resolve_moved source isFree) e.range e

/-- The argument of a call does not depend on the text it stands in. -/
@[simp] theorem argOfCall?_moved : (ctx.moved source isFree).argOfCall? = ctx.argOfCall? := by
  funext e path name
  simp only [argOfCall?, argsOfCall?, ofExpr?_moved]

end Context

/-- References to the functions of a module do not depend on the text they stand in. -/
@[simp] theorem Library.isReference_moved (lib : Library) (ctx : Context) (source : SourceText)
    (isFree : Bool) : lib.isReference (ctx.moved source isFree) = lib.isReference ctx := rfl

@[simp] theorem Library.qualify_moved (lib : Library) (ctx : Context) (source : SourceText)
    (isFree : Bool) : lib.qualify (ctx.moved source isFree) = lib.qualify ctx := rfl

namespace Expr

/-! ## Known values -/

namespace Twin

variable {x x' y y' : Expr} (h : x.Twin x')
include h

/-- A number is known of an expression and of its twin. -/
theorem number? : x'.number? = x.number? := by
  rw [← number?_erase, ← h.erase, number?_erase]

theorem isZero : x'.isZero = x.isZero := by
  rw [Expr.isZero, Expr.isZero, h.number?]

theorem isOne : x'.isOne = x.isOne := by
  rw [Expr.isOne, Expr.isOne, h.number?]

theorem int? : x'.int? = x.int? := by
  rw [← int?_erase, ← h.erase, int?_erase]

/-- A literal is known of an expression and of its twin. -/
theorem literal? : x'.literal? = x.literal? := by
  rw [← literal?_erase, ← h.erase, literal?_erase]

/-- A text is known of an expression and of its twin. -/
theorem string? : x'.string? = x.string? := by
  rw [← string?_erase, ← h.erase, string?_erase]

theorem isEmptyString : x'.isEmptyString = x.isEmptyString := by
  rw [← isEmptyString_erase, ← h.erase, isEmptyString_erase]

/-- An expression is the empty list when its twin is. -/
theorem isEmptyList : x'.isEmptyList = x.isEmptyList := by
  rw [← isEmptyList_erase, ← h.erase, isEmptyList_erase]

variable (ctx : Context)

/-- An expression is a reference to a function when its twin is. -/
theorem isReference (path : ModuleName) (name : String) :
    ctx.isReference x' path name = ctx.isReference x path name := by
  rw [← ctx.isReference_erase, ← h.erase, ctx.isReference_erase]

/-- A boolean is known of an expression and of its twin. -/
theorem bool? : ctx.bool? x' = ctx.bool? x := by
  rw [← ctx.bool?_erase, ← h.erase, ctx.bool?_erase]

/-- Two expressions are equal when their twins are. -/
theorem areEqual (h' : y.Twin y') : ctx.areEqual x' y' = ctx.areEqual x y := by
  rw [← ctx.areEqual_erase, ← h.erase, ← h'.erase, ctx.areEqual_erase]

/-- An expression is known to be the identity when its twin is. -/
theorem isIdentity : ctx.isIdentity x' = ctx.isIdentity x := by
  rw [← ctx.isIdentity_erase, ← h.erase, ctx.isIdentity_erase]

/-- An expression is known to give one boolean when its twin is. -/
theorem isAlwaysBool (value : Bool) : ctx.isAlwaysBool x' value = ctx.isAlwaysBool x value := by
  rw [← ctx.isAlwaysBool_erase, ← h.erase, ctx.isAlwaysBool_erase]

end Twin

/-! ## Forms -/

/-- Erasing parentheses keeps the form of a node that is not in parentheses itself. -/
theorem form_erase {e : Expr} (h : e.isBare = true) : e.erase.form = e.form := by
  cases e with
  | paren => cases h
  | _ => rfl

/-- Twins outside parentheses have one form. -/
theorem Twin.form_eq {e e' : Expr} (h : e.Twin e') (he : e.isBare = true)
    (he' : e'.isBare = true) : e.form = e'.form := by
  rw [← form_erase he, h.erase, form_erase he']

namespace Facing

variable {e e' x x' : Expr}

/-- Below two nodes that face each other outside parentheses, the children face each other in
turn. -/
theorem children (h : Facing e e' x x') (hx : x.isBare = true) (hx' : x'.isBare = true) :
    List.Forall₂ (Facing e e') x.children x'.children :=
  (h.twin.facing_children hx hx').imp fun _ _ => h.trans

/-- What faces parentheses faces what stands in them. -/
theorem of_paren {r : Range} {inner : Expr} (h : Facing e e' (paren r inner) x') :
    Facing e e' inner x' := by
  rcases h.place with ⟨before, before', after, after', heq, heq', hlength⟩
  rw [bareNodes_paren] at heq
  exact ⟨h.twin.of_paren, before, before', after, after', heq, heq', hlength⟩

variable (hx' : x'.isBare = true)
include hx'

/-- A name is faced by the same name. -/
theorem of_var {r : Range} {name : QualifiedName} (h : Facing e e' (var r name) x') :
    ∃ r', x' = var r' name := by
  have herase := h.twin.erase
  cases x' with
  | var r' name' =>
    simp only [Expr.erase, var.injEq, true_and] at herase
    exact ⟨r', by rw [herase]⟩
  | paren => cases hx'
  | _ => simp [Expr.erase] at herase

/-- An application is faced by an application, part by part. -/
theorem of_app {r : Range} {fn : Expr} {args : List Expr} (h : Facing e e' (app r fn args) x') :
    ∃ r' fn' args', x' = app r' fn' args' ∧ Facing e e' fn fn' ∧
      List.Forall₂ (Facing e e') args args' := by
  have hparts := h.children rfl hx'
  have hform := h.twin.form_eq rfl hx'
  cases x' with
  | app r' fn' args' =>
    rcases List.forall₂_cons.mp hparts with ⟨hfn, hargs⟩
    exact ⟨r', fn', args', rfl, hfn, hargs⟩
  | _ => cases hform

/-- An operation is faced by an operation with the same operator, part by part. -/
theorem of_binary {r : Range} {symbol : String} {left right : Expr}
    (h : Facing e e' (binary r symbol left right) x') :
    ∃ r' left' right', x' = binary r' symbol left' right' ∧ Facing e e' left left' ∧
      Facing e e' right right' := by
  have hparts := h.children rfl hx'
  have herase := h.twin.erase
  have hform := h.twin.form_eq rfl hx'
  cases x' with
  | binary r' symbol' left' right' =>
    simp only [Expr.erase, binary.injEq, true_and] at herase
    rcases List.forall₂_cons.mp hparts with ⟨hleft, hparts⟩
    rcases List.forall₂_cons.mp hparts with ⟨hright, -⟩
    exact ⟨r', left', right', by rw [herase.1], hleft, hright⟩
  | _ => cases hform

theorem of_negate {r : Range} {inner : Expr} (h : Facing e e' (negate r inner) x') :
    ∃ r' inner', x' = negate r' inner' ∧ Facing e e' inner inner' := by
  have hparts := h.children rfl hx'
  have hform := h.twin.form_eq rfl hx'
  cases x' with
  | negate r' inner' => exact ⟨r', inner', rfl, (List.forall₂_cons.mp hparts).1⟩
  | _ => cases hform

/-- A list is faced by a list, element by element. -/
theorem of_list {r : Range} {items : List Expr} (h : Facing e e' (list r items) x') :
    ∃ r' items', x' = list r' items' ∧ List.Forall₂ (Facing e e') items items' := by
  have hparts := h.children rfl hx'
  have hform := h.twin.form_eq rfl hx'
  cases x' with
  | list r' items' => exact ⟨r', items', rfl, hparts⟩
  | _ => cases hform

/-- A conditional is faced by a conditional, part by part. -/
theorem of_cond {r : Range} {condition thenBranch elseBranch : Expr}
    (h : Facing e e' (cond r condition thenBranch elseBranch) x') :
    ∃ r' condition' thenBranch' elseBranch', x' = cond r' condition' thenBranch' elseBranch' ∧
      Facing e e' condition condition' ∧ Facing e e' thenBranch thenBranch' ∧
      Facing e e' elseBranch elseBranch' := by
  have hparts := h.children rfl hx'
  have hform := h.twin.form_eq rfl hx'
  cases x' with
  | cond r' condition' thenBranch' elseBranch' =>
    rcases List.forall₂_cons.mp hparts with ⟨hcondition, hparts⟩
    rcases List.forall₂_cons.mp hparts with ⟨hthen, hparts⟩
    exact ⟨r', condition', thenBranch', elseBranch', rfl, hcondition, hthen,
      (List.forall₂_cons.mp hparts).1⟩
  | _ => cases hform

/-- An anonymous function is faced by one whose parameters differ only in places and parentheses. -/
theorem of_lambda {r : Range} {params : List Pattern} {body : Expr}
    (h : Facing e e' (lambda r params body) x') :
    ∃ r' params' body', x' = lambda r' params' body' ∧
      Pattern.eraseAll params = Pattern.eraseAll params' ∧ Facing e e' body body' := by
  have hparts := h.children rfl hx'
  have herase := h.twin.erase
  have hform := h.twin.form_eq rfl hx'
  cases x' with
  | lambda r' params' body' =>
    simp only [Expr.erase, lambda.injEq, true_and] at herase
    exact ⟨r', params', body', rfl, herase.1, (List.forall₂_cons.mp hparts).1⟩
  | _ => cases hform

/-- A case is faced by a case with as many branches, whose patterns differ only in places and
parentheses. -/
theorem of_case {r : Range} {scrutinee : Expr} {branches : List Branch}
    (h : Facing e e' (case r scrutinee branches) x') :
    ∃ r' scrutinee' branches', x' = case r' scrutinee' branches' ∧
      Facing e e' scrutinee scrutinee' ∧
      List.Forall₂ (fun b b' => b.pattern.erase = b'.pattern.erase ∧ Facing e e' b.body b'.body)
        branches branches' := by
  have hparts := h.children rfl hx'
  have herase := h.twin.erase
  have hform := h.twin.form_eq rfl hx'
  cases x' with
  | case r' scrutinee' branches' =>
    simp only [Expr.erase, case.injEq, true_and] at herase
    rcases List.forall₂_cons.mp hparts with ⟨hscrutinee, hbodies⟩
    refine ⟨r', scrutinee', branches', rfl, hscrutinee, ?_⟩
    rw [List.forall₂_map_left_iff, List.forall₂_map_right_iff] at hbodies
    have hpatterns := herase.2
    clear hparts herase hform h hx'
    induction hbodies with
    | nil => exact .nil
    | @cons b b' bs bs' hbody _ ih =>
      rcases b with ⟨pattern, body⟩
      rcases b' with ⟨pattern', body'⟩
      simp only [eraseBranches, List.cons.injEq, Branch.mk.injEq] at hpatterns
      exact .cons ⟨hpatterns.1.1, hbody⟩ (ih hpatterns.2)
  | _ => cases hform

/-- A record update is faced by an update of the same record in the same fields. -/
theorem of_update {r : Range} {base : Located String} {setters : List Setter}
    (h : Facing e e' (update r base setters) x') :
    ∃ r' base' setters', x' = update r' base' setters' ∧ base.value = base'.value ∧
      List.Forall₂ (fun s s' => s.field.value = s'.field.value ∧ Facing e e' s.value s'.value)
        setters setters' := by
  have hparts := h.children rfl hx'
  have herase := h.twin.erase
  have hform := h.twin.form_eq rfl hx'
  cases x' with
  | update r' base' setters' =>
    simp only [Expr.erase, update.injEq, true_and, Located.mk.injEq, and_true] at herase
    refine ⟨r', base', setters', rfl, herase.1, ?_⟩
    have hfields := herase.2
    rw [Expr.children, Expr.children, List.forall₂_map_left_iff, List.forall₂_map_right_iff]
      at hparts
    clear herase hform h hx'
    induction hparts with
    | nil => exact .nil
    | @cons s s' ss ss' hvalue _ ih =>
      rcases s with ⟨field, value⟩
      rcases s' with ⟨field', value'⟩
      simp only [eraseSetters, List.cons.injEq, Setter.mk.injEq, Located.mk.injEq,
        and_true] at hfields
      exact .cons ⟨hfields.1.1, hvalue⟩ (ih hfields.2)
  | _ => cases hform

end Facing

/-! ## Parts that views return -/

namespace Facing

variable {e e' x x' : Expr} (h : Facing e e' x x')
include h

/-- The elements of a known list face those of the twin. -/
theorem list? : Option.Rel (List.Forall₂ (Facing e e')) x.list? x'.list? := by
  have hstripped := h.stripParens
  have hbare := x'.isBare_stripParens
  have hform := hstripped.twin.form_eq x.isBare_stripParens hbare
  unfold Expr.list?
  cases hx : x.stripParens with
  | list r items =>
    rw [hx] at hstripped
    rcases hstripped.of_list hbare with ⟨r', items', hx', hitems⟩
    rw [hx']
    exact .some hitems
  | _ =>
    rw [hx] at hform
    dsimp only
    split
    · rename_i heq
      rw [heq] at hform
      cases hform
    · exact .none

end Facing

end Expr

/-! ## Calls -/

/-- Two calls are written alike, have the same function, and their arguments face each other. -/
structure Call.Facing (e e' : Expr) (c c' : Call) : Prop where
  function : c.function = c'.function
  form : c.form = c'.form
  args : List.Forall₂ (Expr.Facing e e') c.args c'.args

namespace Call

variable {e e' : Expr} {c c' : Call}

/-- Calls that face each other are extended by further arguments in the same way. -/
theorem Facing.extend (h : c.Facing e e' c') {more more' : List Expr}
    (hmore : List.Forall₂ (Expr.Facing e e') more more') (form : CallForm) (range range' : Range) :
    Option.Rel (Facing e e') (c.extend more form range) (c'.extend more' form range') := by
  unfold Call.extend
  rw [← h.form]
  split
  · exact .some ⟨h.function, rfl, List.rel_append h.args hmore⟩
  · exact .none

/-- Only references, applications and operations are calls. -/
theorem within_eq_none {ctx : Context} {range : Range} {x : Expr}
    (h : x.form ∉ [.paren, .var, .app, .binary]) : within ctx range x = none := by
  cases x <;> simp_all [Expr.form, within]

/-- What faces each other is a call on both sides, or on neither. -/
theorem facing_within (ctx : Context) {x x' : Expr} (h : Expr.Facing e e' x x')
    (range range' : Range) :
    Option.Rel (Facing e e') (within ctx range x) (within ctx range' x') := by
  induction x using Expr.induction_on_children generalizing x' range range' with
  | step x ih =>
    have hx' := x'.isBare_stripParens
    have hstripped := h.stripParens
    have hform := hstripped.twin.form_eq x.isBare_stripParens hx'
    rw [← within_stripParens ctx range' x']
    cases x with
    | paren r inner =>
      rw [within, within_stripParens]
      exact ih inner (List.mem_singleton.mpr rfl) h.of_paren range range'
    | var r name =>
      rcases hstripped.of_var hx' with ⟨r', heq⟩
      rw [heq, within, within]
      cases ctx.resolve name with
      | none => exact .none
      | some function => exact .some ⟨rfl, rfl, .nil⟩
    | app r fn args =>
      rcases hstripped.of_app hx' with ⟨r', fn', args', heq, hfn, hargs⟩
      have hcall := ih fn List.mem_cons_self hfn fn.range fn'.range
      rw [heq, within, within]
      generalize within ctx fn.range fn = o, within ctx fn'.range fn' = o' at hcall ⊢
      cases hcall with
      | none => exact .none
      | some hcall => exact hcall.extend hargs .direct range range'
    | binary r symbol left right =>
      rcases hstripped.of_binary hx' with ⟨r', left', right', heq, hleft, hright⟩
      rw [heq, within, within]
      split
      · have hcall := ih right (by simp [Expr.children]) hright right.range right'.range
        generalize within ctx right.range right = o, within ctx right'.range right' = o' at hcall ⊢
        cases hcall with
        | none => exact .none
        | some hcall => exact hcall.extend (.cons hleft .nil) .pipeRight range range'
      · split
        · have hcall := ih left List.mem_cons_self hleft left.range left'.range
          generalize within ctx left.range left = o, within ctx left'.range left' = o' at hcall ⊢
          cases hcall with
          | none => exact .none
          | some hcall => exact hcall.extend (.cons hright .nil) .pipeLeft range range'
        · exact .none
    -- twins have one form, so that neither side is a call
    | _ =>
      rw [within_eq_none (by simp [Expr.form]),
        within_eq_none (by rw [← hform]; simp [Expr.stripParens, Expr.form])]
      exact .none

/-- The only argument of a known call faces that of the twin. -/
theorem facing_argOfCall? (ctx : Context) {x x' : Expr} (h : Expr.Facing e e' x x')
    (path : ModuleName) (name : String) :
    Option.Rel (Expr.Facing e e') (ctx.argOfCall? x path name) (ctx.argOfCall? x' path name) := by
  have hcall := facing_within ctx h x.range x'.range
  unfold Context.argOfCall? Context.argsOfCall? ofExpr?
  generalize within ctx x.range x = o, within ctx x'.range x' = o' at hcall
  cases hcall with
  | none => exact .none
  | @some call call' hcall =>
    dsimp only
    have hargs := hcall.args
    rw [isOf, isOf, ← hcall.function]
    by_cases hof : (call.function == ⟨path, name⟩) = true
    · rw [if_pos hof, if_pos hof]
      generalize call.args = as, call'.args = as' at hargs ⊢
      cases hargs with
      | nil => exact .none
      | cons harg hmore =>
        cases hmore with
        | nil => exact .some harg
        | cons => exact .none
    · rw [if_neg hof, if_neg hof]
      exact .none

end Call

end Terse
