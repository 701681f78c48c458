import Terse.Edit.Items
import Terse.Lookup
import Terse.Rule.Finding

/-!
# The context of a node

What a rule knows about the node it looks at: the module around it, the variables in scope, and
whether the node stands where any expression fits without parentheses. Fixes are built from the
text of the module with the helpers below.
-/

namespace Terse

/-- What stays fixed while a module is analyzed. -/
structure ModuleContext where
  source : SourceText
  lookup : Lookup
  knowledge : Knowledge
  /-- The types whose cases are left alone. -/
  ignoredTypes : List TypeName

/-- The context of a module. -/
def ModuleContext.ofModule (m : Module) (knowledge : Knowledge) (ignoredTypes : List TypeName) :
    ModuleContext :=
  ⟨m.source, Lookup.ofModule m knowledge, knowledge, ignoredTypes⟩

/-- What a rule knows about the place of a node. -/
structure Context where
  module : ModuleContext
  /-- The variables that patterns around the node bind. -/
  scope : List String
  /-- Any expression fits here without parentheses. -/
  isFree : Bool

namespace Context

/-! ## Names -/

/-- What a reference means here. A variable in scope means nothing outside. -/
def resolve (ctx : Context) (q : QualifiedName) : Option ResolvedName :=
  if !q.isQualified && ctx.scope.contains q.name then none else ctx.module.lookup.resolve q

/-- What an expression means if it is a reference, in any parentheses. -/
def resolveExpr (ctx : Context) (e : Expr) : Option ResolvedName :=
  match e.stripParens with
  | .var _ name => ctx.resolve name
  | _ => none

/-- The expression is a reference to this value. -/
def isReference (ctx : Context) (e : Expr) (path : ModuleName) (name : String) : Bool :=
  ctx.resolveExpr e == some ⟨path, name⟩

/-- How this value is written here. -/
def qualify (ctx : Context) (path : ModuleName) (name : String) : String :=
  (ctx.module.lookup.qualify path name ctx.scope).render

/-! ## Text -/

/-- The text of a range. -/
def text (ctx : Context) (r : Range) : String := ctx.module.source.extract r

/-- A text in parentheses. -/
def parenthesized (text : String) : String := "(" ++ text ++ ")"

/-- The text of an expression as an argument: in parentheses unless it needs none. -/
def argText (ctx : Context) (e : Expr) : String :=
  if e.isAtomic then ctx.text e.range else parenthesized (ctx.text e.range)

/-! ## Fixes -/

/-- Replace a node by a text; the text is put in parentheses if the place needs them and it is not
atomic. -/
def replaceBy (ctx : Context) (whole : Range) (text : String) (atomic : Bool) : Edit :=
  .replace whole (if ctx.isFree || atomic then text else parenthesized text)

/-- Write a parenthesis in place of what stands beside the part that is kept, or next to the part
if nothing stands there. -/
def besideWrapped (beside : Range) (edge : Location) (parenthesis : String) : List Edit :=
  if beside.isEmpty then [.insert edge parenthesis] else [.replace beside parenthesis]

/-- Remove what stands beside the part that is kept. -/
def besideBare (beside : Range) : List Edit :=
  if beside.isEmpty then [] else [.remove beside]

/-- Shrink a node to a part of it. Only the text around the part is changed, so that what is found
inside it stays valid. -/
def keepOnly (ctx : Context) (whole : Range) (kept : Expr) : List Edit :=
  let before : Range := ⟨whole.start, kept.range.start⟩
  let after : Range := ⟨kept.range.stop, whole.stop⟩
  if !ctx.isFree && !kept.isAtomic then
    besideWrapped before kept.range.start "(" ++ besideWrapped after kept.range.stop ")"
  else besideBare before ++ besideBare after

end Context

end Terse
