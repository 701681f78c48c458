import Terse.Lint.Site
import Terse.Rule.Catalog

/-!
# The analysis of a module

The sites of a module are looked at in order. At each one the first rule that reports wins. A site
that an earlier fix has changed is passed over, and so is a finding whose fix would change what an
earlier fix has changed.
-/

namespace Terse

/-- The second range overlaps the first one, or is the same empty range. -/
def Range.touches (a b : Range) : Bool :=
  a.overlaps b || (a.isEmpty && b.isEmpty && a.start == b.start)

/-- What an analysis has found so far. -/
structure Progress where
  /-- The ranges that the fixes found so far change. -/
  consumed : List Range
  findings : List Finding
deriving Repr, Inhabited

namespace Progress

/-- Nothing has been found yet. -/
def start : Progress := ⟨[], []⟩

/-- A fix changes something in the range. -/
def isConsumed (p : Progress) (r : Range) : Bool := p.consumed.any (·.touches r)

/-- Report a finding, unless its fix changes what an earlier one has changed. -/
def record (p : Progress) (f : Finding) : Progress :=
  if f.editRanges.any p.isConsumed then p
  else ⟨p.consumed ++ f.editRanges, p.findings ++ [f.checked]⟩

/-- Look at a site. -/
def visit (rules : List Rule) (m : ModuleContext) (p : Progress) (s : Site) : Progress :=
  if p.isConsumed s.expr.range then p
  else match Rule.firstFinding rules ⟨m, s.scope, s.isFree⟩ s.expr with
    | some f => p.record f
    | none => p

end Progress

/-- The findings of some rules in a module. -/
def findingsOf (rules : List Rule) (m : ModuleContext) (sites : List Site) : List Finding :=
  (sites.foldl (Progress.visit rules m) Progress.start).findings

end Terse
