/-
# MiniLisp.Integer — the range of the language's numbers.

Numbers are signed and have 64 bits, so there is one more of them below zero than above.  Arithmetic
is exact: a result outside the range is an error, and so is a literal that is too large.
-/

namespace MiniLisp

/-- The smallest number. -/
def minInt : Int := -9223372036854775808

/-- The largest number. -/
def maxInt : Int := 9223372036854775807

end MiniLisp
