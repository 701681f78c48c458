import Terse.Proofs.Rule.ChainMirrors
import Terse.Proofs.Rule.NodeMirrors
import Terse.Proofs.Rule.SequenceMirrors

/-!
# Rules at twins

What a rule finds at a node mirrors what it finds at a twin of the node. The one thing that depends
on parentheses is whether runs of lists are joined or written anew.
-/

namespace Terse

variable {place place' : Location → Prop} {e e' : Expr}

/-! ## Calls -/

section

variable {family : Family} {ctx : Context} (source : SourceText) (isFree : Bool)

theorem Family.checkCall_mirrors {P : Prop} {c c' : Call} (h : Call.Twins place place' ctx e e' c c')
    (hcheck : ∀ check, (c.function.name, check) ∈ family.checks →
      c.function.path = family.library.path →
        Mirrored P e e' (check family.library ctx c)
          (check family.library (ctx.moved source isFree) c')) :
    Mirrored P e e' (family.checkCall ctx c) (family.checkCall (ctx.moved source isFree) c') := by
  unfold checkCall
  rw [← h.facing.function]
  split
  · rename_i hpath
    cases hlookup : family.checks.lookup c.function.name with
    | none => exact .none
    | some check => exact hcheck check (mem_of_lookup hlookup) hpath
  · exact .none

theorem Family.check_mirrors (hfamily : ∀ check ∈ family.checks, CallCheck.Mirrors check.2)
    (h : e.Twins place place' e') : Mirrored True e e' (family.check ctx e)
      (family.check (ctx.moved source isFree) e') := by
  have hcall := h.ofExpr? ctx
  unfold check
  rw [Context.ofExpr?_moved]
  generalize Call.ofExpr? ctx e = c, Call.ofExpr? ctx e' = c' at hcall ⊢
  cases hcall with
  | none => exact .none
  | some hcall =>
    exact checkCall_mirrors source isFree hcall fun check hcheck _ =>
      hfamily _ hcheck family.library source isFree hcall

end

namespace Rule.Lists

/-- The runs of lists that a fix at a call makes one list of. -/
def runsMergedByCall (ctx : Context) (e : Expr) : List (List Expr) :=
  match Call.ofExpr? ctx e with
  | some c => if c.isOf Core.list "concat" then runsGiven c else []
  | none => []

/-- The runs of lists that a fix at a node makes one list of: the operands of `++` if none of them
is empty, or neighbours among the elements that `List.concat` is given. -/
def runsMerged (ctx : Context) (e : Expr) : List (List Expr) :=
  match e with
  | .binary _ symbol left right =>
    if symbol == "++" then
      if left.isEmptyList || right.isEmptyList then [] else listRuns [] [left, right]
    else runsMergedByCall ctx e
  | _ => runsMergedByCall ctx e

/-- Of the runs of lists that fixes at two nodes make one list of, the same are joined element by
element, without writing the lists anew. -/
def MergedAlike (ctx : Context) (e e' : Expr) : Prop :=
  plainRuns (runsMerged ctx e) = plainRuns (runsMerged ctx e')

section

variable {ctx : Context} (source : SourceText) (isFree : Bool)

theorem familyCheck_mirrors (h : e.Twins place place' e') :
    Mirrored (plainRuns (runsMergedByCall ctx e) = plainRuns (runsMergedByCall ctx e')) e e'
      (family.check ctx e) (family.check (ctx.moved source isFree) e') := by
  have hcall := h.ofExpr? ctx
  unfold Family.check runsMergedByCall
  rw [Context.ofExpr?_moved]
  generalize Call.ofExpr? ctx e = c, Call.ofExpr? ctx e' = c' at hcall ⊢
  cases hcall with
  | none => exact .none
  | @some c c' hcall =>
    dsimp only
    rw [Call.isOf, Call.isOf, ← hcall.facing.function]
    refine Family.checkCall_mirrors source isFree hcall fun check hcheck hpath => ?_
    by_cases hname : c.function.name = "concat"
    · -- of the functions of `List`, only this one merges lists
      have hof : (c.function == (⟨Core.list, "concat"⟩ : ResolvedName)) = true := by
        rw [beq_iff_eq, ← hname]
        exact congrArg (ResolvedName.mk · c.function.name) hpath
      rw [if_pos hof, if_pos hof]
      rw [hname] at hcheck
      have hconcat : check = concat := by
        simpa [family] using hcheck
      rw [hconcat]
      exact concat_mirrors family.library source isFree hcall
    · exact (family_mirrors _ hcheck hname family.library source isFree hcall).mono fun _ => trivial

variable {r r' : Range} {symbol : String} {left right left' right' : Expr}
  (h : (Expr.binary r symbol left right).Twins place place' (.binary r' symbol left' right'))
  (hleft : Expr.Facing (.binary r symbol left right) (.binary r' symbol left' right') left left')
  (hright : Expr.Facing (.binary r symbol left right) (.binary r' symbol left' right') right right')

/-- Merging the operands of an operation stays beside what merging leaves as it is. -/
theorem operands_spares (he : Expr.Nested place (.binary r symbol left right)) (ctx : Context) :
    Spares (.binary r symbol left right) (leftByRuns [] [left, right])
      ((listRuns [] [left, right]).flatMap ctx.mergeLists) := by
  have hline := Expr.nested_operands he
  apply spares_of_apart he
  · intro k hk
    rcases @leftByRuns_apart _ ctx [] _ _ _ hline k hk with ⟨hlies, hapart⟩
    exact ⟨hlies.1, hapart⟩
  · intro n hn _ hout
    rcases List.mem_flatMap.mp hn with ⟨x, hx, hnx⟩
    exact @listRuns_hits _ ctx [] _ _ _ hline _ _ (.inr hx) hnx hout

/-- A fix from the start of the left operand to the start of the right one spares the latter. -/
theorem left_spares (he : Expr.Nested place (.binary r symbol left right)) (text : String) :
    Spares (.binary r symbol left right) [right]
      [.replace ⟨left.range.start, right.range.start⟩ text] := by
  apply spares_of_apart he
  · rw [List.forall_mem_singleton, List.forall_mem_singleton]
    exact ⟨he.right_part.1.1, .inl le_rfl⟩
  · intro n hn hlt hout
    rcases List.mem_flatMap.mp hn with ⟨x, hx, hnx⟩
    have hgap := (between_cons.mp (between_cons.mp (Expr.nested_operands he)).2.2).1
    rcases List.mem_cons.mp hx with rfl | hx
    · rcases he.left_part.1.1.nodes (Expr.mem_nodes_of_mem_bareNodes hnx) with ⟨-, hstart, hstop⟩
      exact hit_of_covers (List.mem_singleton_self _) hlt hstart (hstop.trans hgap)
    · rw [List.mem_singleton.mp hx] at hnx
      exact absurd hnx (hout right (List.mem_singleton_self right))

include h hleft hright

theorem checkConcatOperator_mirrors (hsymbol : symbol = "++") :
    Mirrored (MergedAlike ctx (.binary r symbol left right) (.binary r' symbol left' right'))
      (.binary r symbol left right) (.binary r' symbol left' right')
      (checkConcatOperator ctx r left right)
      (checkConcatOperator (ctx.moved source isFree) r' left' right') := by
  subst hsymbol
  have hlists := hleft.list?
  have hlists' := hright.list?
  unfold checkConcatOperator MergedAlike runsMerged
  dsimp only
  rw [hleft.twin.isEmptyList, hright.twin.isEmptyList]
  by_cases hleftEmpty : left.isEmptyList = true
  · rw [if_pos hleftEmpty, if_pos hleftEmpty]
    exact .some (h.kept hright)
  by_cases hrightEmpty : right.isEmptyList = true
  · rw [if_neg hleftEmpty, if_neg hleftEmpty, if_pos hrightEmpty, if_pos hrightEmpty]
    exact .some (h.kept hleft)
  have hneither : (left.isEmptyList || right.isEmptyList) = false := by
    simp [hleftEmpty, hrightEmpty]
  rw [if_neg hleftEmpty, if_neg hleftEmpty, if_neg hrightEmpty, if_neg hrightEmpty,
    beq_self_eq_true, if_pos rfl, if_pos rfl, hneither]
  generalize hx : left.list? = xs, hx' : left'.list? = xs', hy : right.list? = ys,
    hy' : right'.list? = ys' at hlists hlists' ⊢
  cases hlists with
  | none =>
    cases hlists' with
    | none => exact .none
    | some => exact .none
  | some hxs =>
    cases hlists' with
    | some hys =>
      -- two lists are one run
      have hall : [left, right].all (·.list?.isSome) = true := by simp [hx, hy]
      have hall' : [left', right'].all (·.list?.isSome) = true := by simp [hx', hy']
      refine .some (h.mirrors_of_spares rfl (facing_leftByRuns .nil (.cons hleft (.cons hright .nil)))
        ?_ ?_)
      · rw [Finding.fixing, Finding.edits, Option.getD_some,
          mergeLists_of_all_lists ctx hall le_rfl]
        exact operands_spares h.nested ctx
      · rw [Finding.fixing, Finding.edits, Option.getD_some,
          mergeLists_of_all_lists (ctx.moved source isFree) hall' le_rfl]
        exact operands_spares h.nested' (ctx.moved source isFree)
    | none =>
      cases hxs with
      | nil => exact .none
      | cons hitem hmore =>
        cases hmore with
        | cons => exact .none
        | nil =>
          exact .some (h.mirrors_of_spares rfl (fun _ => .cons hright .nil)
            (left_spares h.nested _) (left_spares h.nested' _))

omit hleft in
theorem checkConsOperator_mirrors {P : Prop} :
    Mirrored P (.binary r symbol left right) (.binary r' symbol left' right')
      (checkConsOperator ctx r left right)
      (checkConsOperator (ctx.moved source isFree) r' left' right') :=
  .map hright.list? fun _ _ _ => h.mirrors_whole rfl rfl rfl rfl rfl

end

/-- What the rule finds at a node mirrors what it finds at a twin, if the same runs of lists are
joined element by element. -/
theorem check_mirrors {ctx : Context} (source : SourceText) (isFree : Bool)
    (h : e.Twins place place' e') :
    Mirrored (MergedAlike ctx e e') e e' (check ctx e) (check (ctx.moved source isFree) e') := by
  have hform := h.twin.form_eq h.bare h.bare'
  have hcalls : Mirrored _ e e' (family.check ctx e) _ := familyCheck_mirrors source isFree h
  cases e with
  | binary r symbol left right =>
    rcases h.twin.facing.of_binary h.bare' with ⟨r', left', right', rfl, hleft, hright⟩
    unfold check
    by_cases happend : symbol = "++"
    · simp only [happend, beq_self_eq_true, if_true]
      rw [happend] at h hleft hright
      exact checkConcatOperator_mirrors source isFree h hleft hright rfl
    · have hne : (symbol == "++") = false := beq_eq_false_iff_ne.mpr happend
      simp only [MergedAlike, runsMerged, hne, Bool.false_eq_true, if_false]
      exact .ite (checkConsOperator_mirrors source isFree h hright) hcalls
  | _ =>
    cases e' with
    | binary => cases hform
    | _ => exact hcalls

end Rule.Lists

namespace Rule.Strings

variable {ctx : Context} (source : SourceText) (isFree : Bool)

/-- What the rule finds at a node mirrors what it finds at a twin. -/
theorem check_mirrors (h : e.Twins place place' e') :
    Mirrored True e e' (check ctx e) (check (ctx.moved source isFree) e') := by
  have hform := h.twin.form_eq h.bare h.bare'
  have hcalls : Mirrored True e e' (family.check ctx e) _ :=
    Family.check_mirrors source isFree family_mirrors h
  cases e with
  | binary r symbol left right =>
    rcases h.twin.facing.of_binary h.bare' with ⟨r', left', right', rfl, hleft, hright⟩
    exact .ite (.map (facing_besideEmpty? hleft hright) fun _ _ hkept => h.kept hkept) hcalls
  | _ =>
    cases e' with
    | binary => cases hform
    | _ => exact hcalls

end Rule.Strings

/-! ## Rules by their codes -/

namespace Rule

section

variable {P : Prop} {check check' : Expr → Option Finding} (h : e.Twins place place' e')
include h

/-- A check of operations mirrors another one if it does so at each operation and its twin. -/
theorem mirrored_of_binary (hform : e.form = .binary)
    (hcheck : ∀ r r' symbol left right left' right',
      (Expr.binary r symbol left right).Twins place place' (.binary r' symbol left' right') →
      Expr.Facing (.binary r symbol left right) (.binary r' symbol left' right') left left' →
      Expr.Facing (.binary r symbol left right) (.binary r' symbol left' right') right right' →
      Mirrored P (.binary r symbol left right) (.binary r' symbol left' right')
        (check (.binary r symbol left right)) (check' (.binary r' symbol left' right'))) :
    Mirrored P e e' (check e) (check' e') := by
  cases e with
  | binary r symbol left right =>
    rcases h.twin.facing.of_binary h.bare' with ⟨r', left', right', rfl, hleft, hright⟩
    exact hcheck _ _ _ _ _ _ _ h hleft hright
  | _ => cases hform

/-- A check of applications mirrors another one if it does so at each application and its twin. -/
theorem mirrored_of_app (hform : e.form = .app)
    (hcheck : ∀ r r' fn fn' args args', (Expr.app r fn args).Twins place place' (.app r' fn' args') →
      Expr.Facing (.app r fn args) (.app r' fn' args') fn fn' →
      List.Forall₂ (Expr.Facing (.app r fn args) (.app r' fn' args')) args args' →
      Mirrored P (.app r fn args) (.app r' fn' args') (check (.app r fn args))
        (check' (.app r' fn' args'))) : Mirrored P e e' (check e) (check' e') := by
  cases e with
  | app r fn args =>
    rcases h.twin.facing.of_app h.bare' with ⟨r', fn', args', rfl, hfn, hargs⟩
    exact hcheck _ _ _ _ _ _ h hfn hargs
  | _ => cases hform

end

variable {ctx : Context} (source : SourceText) (isFree : Bool)

/-- What any rule finds at a node mirrors what it finds at a twin, if the same runs of lists are
joined element by element. -/
theorem ofCode_mirrors (h : e.Twins place place' e') (code : RuleCode)
    (hform : (ofCode code).forms.contains e.form = true) :
    Mirrored (Lists.MergedAlike ctx e e') e e'
      ((ofCode code).check ctx e) ((ofCode code).check (ctx.moved source isFree) e') := by
  -- only the rule on lists joins lists: what other families find is mirrored in any case
  have hfamily : ∀ {family : Family}, (∀ check ∈ family.checks, CallCheck.Mirrors check.2) →
      Mirrored (Lists.MergedAlike ctx e e') e e'
        (family.check ctx e) (family.check (ctx.moved source isFree) e') :=
    fun hfamily => (Family.check_mirrors source isFree hfamily h).mono fun _ => trivial
  cases code with
  | booleanOperators =>
    exact mirrored_of_binary h (List.mem_singleton.mp (List.contains_iff_mem.mp hform))
      fun _ _ _ _ _ _ _ => checkBooleanOperator_mirrors source isFree
  | equality =>
    exact mirrored_of_binary h (List.mem_singleton.mp (List.contains_iff_mem.mp hform))
      fun _ _ _ _ _ _ _ => checkEquality_mirrors source isFree
  | arithmetic =>
    exact mirrored_of_binary h (List.mem_singleton.mp (List.contains_iff_mem.mp hform))
      fun _ _ _ _ _ _ _ => checkArithmetic_mirrors source isFree
  | comparison =>
    exact mirrored_of_binary h (List.mem_singleton.mp (List.contains_iff_mem.mp hform))
      fun _ _ _ _ _ _ _ => checkOrdering_mirrors source isFree
  | operatorFunctions =>
    exact mirrored_of_app h (List.mem_singleton.mp (List.contains_iff_mem.mp hform))
      fun _ _ _ _ _ _ => checkOperatorFunction_mirrors source isFree
  | appliedLambda =>
    exact mirrored_of_app h (List.mem_singleton.mp (List.contains_iff_mem.mp hform))
      fun _ _ _ _ _ _ => checkAppliedLambda_mirrors source isFree
  | numberNegation =>
    have hnegate := List.mem_singleton.mp (List.contains_iff_mem.mp hform)
    cases e with
    | negate r inner =>
      rcases h.twin.facing.of_negate h.bare' with ⟨r', inner', rfl, hinner⟩
      exact checkNegation_mirrors source isFree h hinner
    | _ => cases hnegate
  | ifExpressions =>
    have hcond := List.mem_singleton.mp (List.contains_iff_mem.mp hform)
    cases e with
    | cond =>
      rcases h.twin.facing.of_cond h.bare' with ⟨_, _, _, _, rfl, hcondition, hthen, helse⟩
      exact checkIf_mirrors source isFree h hcondition hthen helse
    | _ => cases hcond
  | caseExpressions =>
    have hcase := List.mem_singleton.mp (List.contains_iff_mem.mp hform)
    cases e with
    | case =>
      rcases h.twin.facing.of_case h.bare' with ⟨_, _, _, rfl, hscrutinee, hbranches⟩
      exact checkCase_mirrors source isFree h hbranches
    | _ => cases hcase
  | recordUpdate =>
    have hupdate := List.mem_singleton.mp (List.contains_iff_mem.mp hform)
    cases e with
    | update =>
      rcases h.twin.facing.of_update h.bare' with ⟨_, _, _, rfl, hbase, hsetters⟩
      exact @checkUpdate_mirrors _ _ _ ctx source isFree _ _ _ _ _ _ h hbase hsetters
    | _ => cases hupdate
  | notCalls => exact checkNot_mirrors source isFree h
  | basics => exact checkBasics_mirrors source isFree h
  | list => exact Lists.check_mirrors source isFree h
  | string => exact (Strings.check_mirrors source isFree h).mono fun _ => trivial
  | maybe => exact hfamily Wrapped.maybeFamily_mirrors
  | result => exact hfamily Wrapped.resultFamily_mirrors
  | set => exact hfamily Collection.setFamily_mirrors
  | dict => exact hfamily Collection.dictFamily_mirrors
  | cmd => exact hfamily Effect.cmdFamily_mirrors
  | sub => exact hfamily Effect.subFamily_mirrors

/-- What some rules find first at a node mirrors what they find first at a twin. -/
theorem firstFinding_mirrors (h : e.Twins place place' e') (codes : List RuleCode) :
    Mirrored (Lists.MergedAlike ctx e e') e e'
      (firstFinding (codes.map ofCode) ctx e)
      (firstFinding (codes.map ofCode) (ctx.moved source isFree) e') := by
  have hform := h.twin.form_eq h.bare h.bare'
  unfold firstFinding
  rw [← hform]
  induction codes with
  | nil => exact .none
  | cons code codes ih =>
    rw [List.map_cons, List.findSome?_cons, List.findSome?_cons]
    by_cases hlooks : (ofCode code).forms.contains e.form = true
    · have hfound : Mirrored _ e e' ((ofCode code).check ctx e) _ :=
        ofCode_mirrors source isFree h code hlooks
      rw [if_pos hlooks, if_pos hlooks]
      generalize (ofCode code).check ctx e = f,
        (ofCode code).check (ctx.moved source isFree) e' = f' at hfound ⊢
      cases hfound with
      | none => exact ih
      | some hmirrors => exact .some hmirrors
    · rw [if_neg hlooks, if_neg hlooks]
      dsimp only
      exact ih

end Rule

end Terse
