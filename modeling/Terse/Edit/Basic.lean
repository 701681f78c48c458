import Terse.Text.Source

/-!
# Edits

A single change to a text, and what a list of edits must not do: overlap. Two edits clash when
they share a character, when an insertion lies strictly inside the other edit, or when both insert
at one place, since their order would be open.
-/

namespace Terse

/-- A change to a text. -/
inductive Edit where
  | replace (range : Range) (text : String)
  | remove (range : Range)
  | insert (position : Location) (text : String)
deriving DecidableEq, Repr, Inhabited

namespace Edit

/-- The range that the edit changes; empty for an insertion. -/
def range : Edit → Range
  | replace r _ | remove r => r
  | insert position _ => Range.point position

/-- What the edit writes in place of its range. -/
def text : Edit → String
  | replace _ t | insert _ t => t
  | remove _ => ""

end Edit

/-- The first two neighbours in a list that are related. -/
def firstNeighbours {α : Type} (related : α → α → Bool) (xs : List α) : Option (α × α) :=
  (xs.zip xs.tail).find? fun (a, b) => related a b

namespace Range

/-- Of two ranges in order, the first ends after the second starts, or both are the same point. -/
def clashes (a b : Range) : Bool :=
  b.start < a.stop || (a.isEmpty && b.isEmpty && a.start == b.start)

/-- The first two clashing neighbours among ranges put in order. -/
def firstClash (ranges : List Range) : Option (Range × Range) :=
  firstNeighbours clashes (ranges.mergeSort startsFirst)

end Range

end Terse
