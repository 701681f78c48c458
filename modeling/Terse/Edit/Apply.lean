import Terse.Edit.Basic

/-!
# Applying edits

A list of edits is applied as a whole or not at all. Its order does not matter: the edits are put
in the order of their places, and written from the last to the first, so that a place never moves
before its edit is written.
-/

namespace Terse

/-- Why a list of edits could not be applied. -/
inductive EditError where
  | overlap (first second : Range)
  | outOfBounds (location : Location)
  | inverted (range : Range)
deriving DecidableEq, Repr, Inhabited

/-- The text of an error. -/
def EditError.message : EditError → String
  | overlap first second => s!"Overlapping edit ranges: {first.render} and {second.render}"
  | outOfBounds location => s!"Edit position {location.render} is outside the source text"
  | inverted range => s!"Edit range {range.render} ends before it starts"

/-- An edit with the numbers of characters before its start and before its end. -/
structure PlacedEdit where
  start : Nat
  stop : Nat
  edit : Edit
deriving DecidableEq, Repr, Inhabited

namespace PlacedEdit

/-- Order by start, and by end among edits that start together. -/
def startsFirst (a b : PlacedEdit) : Bool :=
  a.start < b.start || (a.start == b.start && a.stop ≤ b.stop)

/-- Of two edits in order, the first ends after the second starts, or both insert at one place. -/
def clashes (a b : PlacedEdit) : Bool :=
  b.start < a.stop || (a.start == a.stop && b.start == b.stop && a.start == b.start)

/-- Write the edit into a text. -/
def write (p : PlacedEdit) (text : List Char) : List Char :=
  text.take p.start ++ p.edit.text.toList ++ text.drop p.stop

end PlacedEdit

namespace SourceText

/-- The number of characters before a location that an edit names. -/
def indexFor (s : SourceText) (l : Location) : Except EditError Nat :=
  match s.index? l with
  | some i => .ok i
  | none => .error (.outOfBounds l)

/-- Find the place of an edit. -/
def place (s : SourceText) (e : Edit) : Except EditError PlacedEdit :=
  if e.range.stop < e.range.start then .error (.inverted e.range)
  else do
    let start ← s.indexFor e.range.start
    let stop ← s.indexFor e.range.stop
    return ⟨start, stop, e⟩

/-- Find the places of all edits, or what is wrong with the first one that has none. -/
def placeAll (s : SourceText) : List Edit → Except EditError (List PlacedEdit)
  | [] => .ok []
  | e :: es => do
    let first ← s.place e
    let others ← s.placeAll es
    return first :: others

/-- Apply edits to the text. -/
def apply (s : SourceText) (edits : List Edit) : Except EditError SourceText := do
  let placed := (← s.placeAll edits).mergeSort PlacedEdit.startsFirst
  match firstNeighbours PlacedEdit.clashes placed with
  | some (a, b) => .error (.overlap a.edit.range b.edit.range)
  | none => .ok ⟨placed.foldr PlacedEdit.write s.chars⟩

end SourceText

/-- Apply edits to a string. -/
def applyEdits (text : String) (edits : List Edit) : Except EditError String :=
  ((SourceText.ofString text).apply edits).map SourceText.text

end Terse
