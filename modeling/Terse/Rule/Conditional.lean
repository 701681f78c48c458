import Terse.Rule.Basic

/-!
# Conditionals and cases
-/

namespace Terse.Rule

/-- The negation of a condition. -/
def negatedText (ctx : Context) (condition : Expr) : String :=
  ctx.qualify Core.basics "not" ++ " " ++ ctx.argText condition.stripParens

/-! ## Conditionals -/

/-- A conditional whose condition is known, that returns its condition or the opposite of it, or
whose branches are equal. -/
def checkIf (ctx : Context) : Expr → Option Finding
  | .cond whole condition thenBranch elseBranch =>
    let head : Range := ⟨whole.start, condition.range.stop⟩
    match ctx.bool? condition with
    | some value =>
      let kept := if value then thenBranch else elseBranch
      let branch := if value then "then" else "else"
      some (.fixing .ifExpressions s!"The condition will always evaluate to {boolName value}"
        [s!"The expression can be replaced by what is inside the '{branch}' branch."] head
        (ctx.keepOnly whole kept.stripParens))
    | none =>
      match ctx.bool? thenBranch, ctx.bool? elseBranch with
      | some true, some false =>
        some (.fixing .ifExpressions "The if expression's value is the same as the condition"
          ["The expression can be replaced by the condition."] head
          (ctx.keepOnly whole condition.stripParens))
      | some false, some true =>
        some (.fixing .ifExpressions "The if expression's value is the inverse of the condition"
          ["The expression can be replaced by the condition wrapped by `not`."] head
          [ctx.replaceBy whole (negatedText ctx condition) false])
      | _, _ =>
        if ctx.areEqual thenBranch elseBranch then
          some (.fixing .ifExpressions "The values in both branches is the same."
            ["The expression can be replaced by the contents of either branch."] head
            (ctx.keepOnly whole thenBranch.stripParens))
        else none
  | _ => none

/-- Conditionals. -/
def ifExpressions : Rule := ⟨.ifExpressions, [.cond], checkIf⟩

/-! ## Cases with equal bodies -/

/-- The type that a constructor in a pattern belongs to. -/
def constructorType? (ctx : Context) (name : QualifiedName) : Option TypeName :=
  (ctx.resolve name).bind fun r => ctx.module.knowledge.typeOf r.path r.name

/-- A pattern names a constructor of a type whose cases are left alone. -/
def touchesIgnoredType (ctx : Context) (patterns : List Pattern) : Bool :=
  patterns.any fun p => p.constructors.any fun name =>
    match constructorType? ctx name with
    | some t => ctx.module.ignoredTypes.contains t
    | none => false

/-- The constructor of a pattern that is one whose arguments are ignored, with its type. -/
def ignoringConstructor? (ctx : Context) (p : Pattern) : Option (String × TypeName) :=
  match p.stripParens with
  | .ctor _ name args =>
    if Pattern.allIgnoreValue args then (constructorType? ctx name).map (name.name, ·) else none
  | _ => none

/-- The patterns are constructors of one type and all of them, with ignored arguments. -/
def coversType (ctx : Context) (patterns : List Pattern) : Bool :=
  match patterns.mapM (ignoringConstructor? ctx) with
  | some ((name, owner) :: others) =>
    let seen := (name :: others.map (·.1)).eraseDups
    others.all (·.2 == owner) &&
      match ctx.module.knowledge.constructorsOf owner with
      | some all => all.length == seen.length && all.all seen.contains
      | none => false
  | _ => false

/-- The patterns match every value: one of them does, or together they cover a type. -/
def isExhaustive (ctx : Context) (patterns : List Pattern) : Bool :=
  patterns.any Pattern.isCatchAll || coversType ctx patterns

/-- A case whose branches are all equal, bind nothing and match every value. -/
def checkSameBodies (ctx : Context) (whole : Range) (scrutinee : Expr) (branches : List Branch) :
    Option Finding :=
  match branches with
  | [] => none
  | first :: others =>
    let patterns := branches.map Branch.pattern
    if others.all (fun b => ctx.areEqual first.body b.body) &&
        patterns.all (fun p => p.boundVars.isEmpty) &&
        !touchesIgnoredType ctx patterns && isExhaustive ctx patterns then
      some (.fixing .caseExpressions "Unnecessary case expression"
        ["All the branches of this case expression resolve to the same value. You can remove the case expression and replace it with the body of one of the branches."]
        ⟨whole.start, scrutinee.range.stop⟩ (ctx.keepOnly whole first.body.stripParens))
    else none

/-! ## Cases on a boolean -/

/-- What a pattern matches when a boolean is matched. -/
inductive BoolPattern where
  | exactly (value : Bool)
  | anything
deriving DecidableEq, Repr, Inhabited

/-- What a pattern matches, if it can be told. -/
def boolPattern? (ctx : Context) (p : Pattern) : Option BoolPattern :=
  match p.stripParens with
  | .wild _ => some .anything
  | .ctor _ name [] =>
    match ctx.resolve name with
    | some r =>
      if r = ⟨Core.basics, "True"⟩ then some (.exactly true)
      else if r = ⟨Core.basics, "False"⟩ then some (.exactly false)
      else none
    | none => none
  | _ => none

/-- The edits that write a case on a boolean as a conditional. -/
def caseAsIf (ctx : Context) (whole : Range) (condition : String) (first second : Expr) :
    List Edit :=
  let opening := if ctx.isFree then "" else "("
  [.replace ⟨whole.start, first.range.start⟩ (opening ++ "if " ++ condition ++ " then "),
   .replace ⟨first.range.stop, second.range.start⟩ " else "] ++
    if ctx.isFree then [] else [.insert whole.stop ")"]

/-- A case of two branches that matches a boolean. -/
def checkBooleanCase (ctx : Context) (whole : Range) (scrutinee : Expr) (branches : List Branch) :
    Option Finding :=
  match branches with
  | [first, second] =>
    match boolPattern? ctx first.pattern, boolPattern? ctx second.pattern with
    | some (.exactly value), some other =>
      if other = .exactly value then none
      else
        let condition := if value then ctx.text scrutinee.range else negatedText ctx scrutinee
        some (.fixing .caseExpressions "Replace `case..of` by an `if` condition"
          ["The idiomatic way to check for a condition is to use an `if` expression.",
           "Read more about it at: https://guide.elm-lang.org/core_language.html#if-expressions"]
          ⟨whole.start, scrutinee.range.stop⟩
          (caseAsIf ctx whole condition first.body second.body))
    | _, _ => none
  | _ => none

/-- A case that can be removed, or written as a conditional. -/
def checkCase (ctx : Context) : Expr → Option Finding
  | .case whole scrutinee branches =>
    (checkSameBodies ctx whole scrutinee branches).or
      (checkBooleanCase ctx whole scrutinee branches)
  | _ => none

/-- Cases. -/
def caseExpressions : Rule := ⟨.caseExpressions, [.case], checkCase⟩

end Terse.Rule
