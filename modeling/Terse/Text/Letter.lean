import Terse.Text.LetterTable

/-!
# Letters, digits and blanks

The classes of characters that names and spaces are made of, over all of Unicode. On ASCII they
are the usual ranges; the tables answer for the rest.
-/

namespace Terse.Letter

/-- A character of the ASCII range. -/
def isAscii (c : Char) : Bool := c.toNat < 128

/-- A letter of any script. -/
def isAlphabetic (c : Char) : Bool :=
  if isAscii c then c.isAlpha else memberByPoints alphabeticPoints c

/-- A digit or another number of any script. -/
def isNumeric (c : Char) : Bool :=
  if isAscii c then c.isDigit else memberByPoints numericPoints c

/-- A capital letter of any script. -/
def isUppercase (c : Char) : Bool :=
  if isAscii c then c.isUpper else memberByPoints uppercasePoints c

/-- A small letter of any script. -/
def isLowercase (c : Char) : Bool :=
  if isAscii c then c.isLower else memberByPoints lowercasePoints c

/-- Where the property White_Space changes. -/
def blankPoints : List Nat :=
  [9, 14, 32, 33, 133, 134, 160, 161, 5760, 5761, 8192, 8203, 8232, 8234, 8239, 8240, 8287, 8288,
   12288, 12289]

/-- White space of any script. -/
def isBlank (c : Char) : Bool := memberByPoints blankPoints c

/-- A character that can continue a word: a letter, a number or an underscore. -/
def isWordChar (c : Char) : Bool := isAlphabetic c || isNumeric c || c == '_'

/-- The text without the white space at its two ends. -/
def trim (cs : List Char) : List Char :=
  ((cs.dropWhile isBlank).reverse.dropWhile isBlank).reverse

end Terse.Letter
