import Terse.Text.Location

/-!
# Source text

A text is cut into rows at its line feeds. A location belongs to the text when its row exists and
its column is at most one past the row's last character.
-/

namespace Terse

/-- The rows of a text, without their line feeds; there is always at least one. -/
def rowsOf : List Char → List (List Char)
  | [] => [[]]
  | c :: cs =>
    if c = '\n' then [] :: rowsOf cs
    else match rowsOf cs with
      | [] => [[c]]
      | row :: rows => (c :: row) :: rows

/-- A text that is addressed by row and column. -/
structure SourceText where
  chars : List Char
deriving DecidableEq, Repr, Inhabited

namespace SourceText

/-- The source text of a string. -/
def ofString (text : String) : SourceText := ⟨text.toList⟩

/-- The text as a string. -/
def text (s : SourceText) : String := String.ofList s.chars

/-- The rows of the text. -/
def rows (s : SourceText) : List (List Char) := rowsOf s.chars

/-- How many characters rows have, each with the line feed behind it. -/
def rowsLength : List (List Char) → Nat
  | [] => 0
  | row :: rows => row.length + 1 + rowsLength rows

/-- How many characters stand before a location: all earlier rows with their line feeds, and the
columns before it. -/
def index? (s : SourceText) (l : Location) : Option Nat :=
  if l.row = 0 ∨ l.column = 0 then none
  else match s.rows[l.row - 1]? with
    | none => none
    | some row =>
      if l.column - 1 ≤ row.length then
        some (rowsLength (s.rows.take (l.row - 1)) + (l.column - 1))
      else none

/-- How many bytes a text takes in UTF-8. -/
def byteLength : List Char → Nat
  | [] => 0
  | c :: cs => c.utf8Size + byteLength cs

/-- How many bytes stand before a location. -/
def offset? (s : SourceText) (l : Location) : Option Nat :=
  (s.index? l).map fun i => byteLength (s.chars.take i)

/-- The text of a range, if both ends belong to the text and are in order. -/
def slice? (s : SourceText) (r : Range) : Option String :=
  match s.index? r.start, s.index? r.stop with
  | some i, some j => if i ≤ j then some (String.ofList ((s.chars.take j).drop i)) else none
  | _, _ => none

/-- The text of a range, empty when the range does not belong to the text. -/
def extract (s : SourceText) (r : Range) : String := (s.slice? r).getD ""

end SourceText

end Terse
