/-!
# Sets of characters

A set of code points is given by its points of change in increasing order: the first point is the
first member, the second the first non-member after it, and so on.
-/

namespace Terse

/-- Membership in the set with these points of change: an odd number of them has been passed. -/
def memberByPoints (points : List Nat) (c : Char) : Bool :=
  (points.takeWhile (· ≤ c.toNat)).length % 2 == 1

end Terse
