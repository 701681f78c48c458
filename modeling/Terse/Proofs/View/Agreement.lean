import Terse.Proofs.View.Call
import Terse.Proofs.View.Equality
import Terse.View.Function

/-!
# Contexts that agree

A context is asked what a reference means, how a value is written, what a text says, and what is
known about the type that a constructor belongs to. Contexts that give the same answers to these
questions give the same answers to all others.
-/

namespace Terse

/-! ## What references decide -/

section

variable {ctx ctx' : Context} (h : ctx.resolve = ctx'.resolve)
include h

/-- Equality asks the context only about references. -/
theorem Context.areEqual_of_resolve : ctx.areEqual = ctx'.areEqual := by
  have hsame : ctx.sameReference = ctx'.sameReference := by
    funext a b
    simp only [Context.sameReference, h]
  funext a b
  rw [ctx.areEqual_eq_alike [] [], ctx'.areEqual_eq_alike [] [], hsame]

/-- Which call an expression is depends on the context through its references only. -/
theorem Call.ReadOff.of_resolve {range : Range} {e : Expr} {call : Call}
    (hcall : ReadOff ctx range e call) : ReadOff ctx' range e call := by
  induction hcall with
  | paren _ ih => exact .paren ih
  | var hname => exact .var (h ▸ hname)
  | app _ hdirect ih => exact .app ih hdirect
  | pipeRight _ hdirect ih => exact .pipeRight ih hdirect
  | pipeLeft _ hdirect ih => exact .pipeLeft ih hdirect

/-- Contexts that resolve references alike read the same calls. -/
theorem Call.within_of_resolve (range : Range) (e : Expr) :
    within ctx range e = within ctx' range e := by
  ext call
  rw [within_eq_some_iff, within_eq_some_iff]
  exact ⟨ReadOff.of_resolve h, ReadOff.of_resolve h.symm⟩

end

namespace Context

/-- Two contexts answer alike. What is known about types is compared for those types only that a
reference leads to. -/
structure Agrees (ctx ctx' : Context) : Prop where
  source : ctx.module.source = ctx'.module.source
  isFree : ctx.isFree = ctx'.isFree
  resolve : ctx.resolve = ctx'.resolve
  qualify : ctx.qualify = ctx'.qualify
  ignoredTypes : ctx.module.ignoredTypes = ctx'.module.ignoredTypes
  typeOf : ∀ q r, ctx.resolve q = some r →
    ctx.module.knowledge.typeOf r.path r.name = ctx'.module.knowledge.typeOf r.path r.name
  constructorsOf : ∀ q r t, ctx.resolve q = some r →
    ctx.module.knowledge.typeOf r.path r.name = some t →
      ctx.module.knowledge.constructorsOf t = ctx'.module.knowledge.constructorsOf t

namespace Agrees

variable {ctx ctx' : Context} (h : ctx.Agrees ctx')
include h

/-! ## Texts and fixes -/

theorem text : ctx.text = ctx'.text := by
  funext r
  rw [Context.text, Context.text, h.source]

theorem argText : ctx.argText = ctx'.argText := by
  funext e
  rw [Context.argText, Context.argText, h.text]

/-- Contexts that agree replace a range by the same edit. -/
theorem replaceBy : ctx.replaceBy = ctx'.replaceBy := by
  funext whole text atomic
  rw [Context.replaceBy, Context.replaceBy, h.isFree]

/-- Contexts that agree keep a part by the same edits. -/
theorem keepOnly : ctx.keepOnly = ctx'.keepOnly := by
  funext whole kept
  rw [Context.keepOnly, Context.keepOnly, h.isFree]

/-! ## Names and values -/

theorem resolveExpr : ctx.resolveExpr = ctx'.resolveExpr := by
  funext e
  simp only [Context.resolveExpr, h.resolve]

/-- Contexts that agree recognize the same references. -/
theorem isReference : ctx.isReference = ctx'.isReference := by
  funext e path name
  rw [Context.isReference, Context.isReference, h.resolveExpr]

theorem bool? : ctx.bool? = ctx'.bool? := by
  funext e
  simp only [Context.bool?, h.isReference]

theorem areEqual : ctx.areEqual = ctx'.areEqual := areEqual_of_resolve h.resolve

/-- Contexts that agree know the same functions to be the identity. -/
theorem isIdentity : ctx.isIdentity = ctx'.isIdentity := by
  funext e
  simp only [Context.isIdentity, h.isReference]

/-- Contexts that agree know the same functions to be constant. -/
theorem constant? : ctx.constant? = ctx'.constant? := by
  funext e
  simp only [Context.constant?, h.isReference]

theorem isAlwaysBool : ctx.isAlwaysBool = ctx'.isAlwaysBool := by
  funext e value
  simp only [Context.isAlwaysBool, h.constant?, h.bool?]

/-! ## Calls -/

/-- Contexts that agree read the same calls. -/
theorem ofExpr? : Call.ofExpr? ctx = Call.ofExpr? ctx' := by
  funext e
  exact Call.within_of_resolve h.resolve e.range e

theorem argsOfCall? : ctx.argsOfCall? = ctx'.argsOfCall? := by
  funext e path name
  rw [Context.argsOfCall?, Context.argsOfCall?, h.ofExpr?]

/-- Contexts that agree find the same arguments of calls with one argument. -/
theorem argOfCall? : ctx.argOfCall? = ctx'.argOfCall? := by
  funext e path name
  rw [Context.argOfCall?, Context.argOfCall?, h.argsOfCall?]

end Agrees

end Context

end Terse
