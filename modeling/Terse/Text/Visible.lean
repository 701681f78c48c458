import Terse.Text.VisibleTable

/-!
# Showing a single character

A character is shown between apostrophes. One that cannot be seen, or that would attach to the
apostrophe before it, is shown by its number.
-/

namespace Terse.Visible

/-- A character with a visible form of its own. -/
def isVisible (c : Char) : Bool :=
  if c.toNat < 128 then 32 ≤ c.toNat && c.toNat < 127
  else !memberByPoints hiddenPoints c && !memberByPoints extendingPoints c

/-- The number of a character in lowercase hexadecimal. -/
def hexadecimal (c : Char) : String := String.ofList (Nat.toDigits 16 c.toNat)

/-- The character as it stands between apostrophes. -/
def escape (c : Char) : String :=
  if c = '\x00' then "\\0"
  else if c = '\t' then "\\t"
  else if c = '\r' then "\\r"
  else if c = '\n' then "\\n"
  else if c = '\'' then "\\'"
  else if c = '\\' then "\\\\"
  else if isVisible c then c.toString
  else "\\u\x7b" ++ hexadecimal c ++ "\x7d"

/-- The character between apostrophes. -/
def render (c : Char) : String := "'" ++ escape c ++ "'"

end Terse.Visible
