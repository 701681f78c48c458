/-!
# Locations and ranges

A location is a row and a column, both counted from one; a column counts characters. A range is
half open: its start belongs to it, its end does not. Nothing stops a range from ending before
it starts, because ranges also come from outside; such a range is empty.
-/

namespace Terse

/-- A place between two characters of a text. -/
structure Location where
  row : Nat
  column : Nat
deriving DecidableEq, Repr, Inhabited

namespace Location

/-- Where every text starts. -/
def origin : Location := ⟨1, 1⟩

/-- Row-major order: the row decides, and the column within a row. -/
instance : LT Location := ⟨fun a b => a.row < b.row ∨ a.row = b.row ∧ a.column < b.column⟩

/-- Row-major order with equality. -/
instance : LE Location := ⟨fun a b => a.row < b.row ∨ a.row = b.row ∧ a.column ≤ b.column⟩

instance (a b : Location) : Decidable (a < b) :=
  inferInstanceAs (Decidable (a.row < b.row ∨ a.row = b.row ∧ a.column < b.column))

instance (a b : Location) : Decidable (a ≤ b) :=
  inferInstanceAs (Decidable (a.row < b.row ∨ a.row = b.row ∧ a.column ≤ b.column))

/-- Of two locations, the earlier one. -/
instance : Min Location := ⟨fun a b => if a ≤ b then a else b⟩

/-- Of two locations, the later one. -/
instance : Max Location := ⟨fun a b => if a ≤ b then b else a⟩

theorem lt_def {a b : Location} :
    a < b ↔ a.row < b.row ∨ a.row = b.row ∧ a.column < b.column := Iff.rfl

theorem le_def {a b : Location} :
    a ≤ b ↔ a.row < b.row ∨ a.row = b.row ∧ a.column ≤ b.column := Iff.rfl

/-- The three-way comparison of row-major order. -/
def compare (a b : Location) : Ordering :=
  if a < b then .lt else if a = b then .eq else .gt

/-- The location after one more character: a line feed starts the next row. Rows and columns are
32-bit words, but nothing is reduced here: a text is taken to have less than `columnCount` rows, and
less than `columnCount` columns in each of them. -/
def after (l : Location) (c : Char) : Location :=
  if c = '\n' then ⟨l.row + 1, 1⟩ else ⟨l.row, l.column + 1⟩

/-- The location after a whole text. -/
def afterAll (l : Location) (text : List Char) : Location := text.foldl after l

/-- How many columns there are: a column is a 32-bit word. -/
def columnCount : Nat := Nat.pow 2 32

/-- Move `n` columns to the right; the sum is a 32-bit word. -/
def shift (l : Location) (n : Nat) : Location := ⟨l.row, (l.column + n) % columnCount⟩

/-- Move `n` columns to the left, stopping at column zero. -/
def unshift (l : Location) (n : Nat) : Location := ⟨l.row, l.column - n⟩

/-- The text of a location, `row:column`. -/
def render (l : Location) : String := s!"{l.row}:{l.column}"

end Location

/-- The text from `start` up to, and not including, `stop`. -/
structure Range where
  start : Location
  stop : Location
deriving DecidableEq, Repr, Inhabited

namespace Range

/-- The empty range at a location: a point of insertion. -/
def point (l : Location) : Range := ⟨l, l⟩

/-- The range of what stands nowhere in the text. -/
def nowhere : Range := ⟨⟨0, 0⟩, ⟨0, 0⟩⟩

/-- A range with no character in it. -/
def isEmpty (r : Range) : Bool := r.stop ≤ r.start

/-- The smallest range that holds both. -/
def merge (a b : Range) : Range := ⟨min a.start b.start, max a.stop b.stop⟩

/-- The smallest range that holds all of a list, which must not be empty. -/
def mergeAll : List Range → Option Range
  | [] => none
  | r :: rs => some (rs.foldl merge r)

/-- All of `b` lies in `a`. -/
def contains (a b : Range) : Bool := a.start ≤ b.start && b.stop ≤ a.stop

/-- The character after `l` lies in `a`. -/
def containsLocation (a : Range) (l : Location) : Bool := a.start ≤ l && l < a.stop

/-- The range `a` ends no later than `b` starts. -/
def isBefore (a b : Range) : Bool := a.stop ≤ b.start

/-- The range `a` starts no earlier than `b` ends. -/
def isAfter (a b : Range) : Bool := b.stop ≤ a.start

/-- Two ranges overlap when they share a character; an empty range overlaps another one when it
lies strictly inside it. -/
def overlaps (a b : Range) : Bool :=
  if a.isEmpty then b.start < a.start && a.start < b.stop
  else if b.isEmpty then a.start < b.start && b.start < a.stop
  else a.start < b.stop && b.start < a.stop

/-- One range ends exactly where the other starts. -/
def isAdjacent (a b : Range) : Bool := a.stop == b.start || b.stop == a.start

/-- Order by start, and by end among ranges that start together. -/
def startsFirst (a b : Range) : Bool :=
  a.start < b.start || (a.start == b.start && a.stop ≤ b.stop)

/-- The text of a range, `start-stop`. -/
def render (r : Range) : String := s!"{r.start.render}-{r.stop.render}"

end Range

/-- A value that was read from a range of the text. -/
structure Located (α : Type) where
  value : α
  range : Range
deriving DecidableEq, Repr, Inhabited

end Terse
