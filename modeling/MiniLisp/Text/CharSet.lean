/-
# MiniLisp.Text.CharSet — sets of characters given by ranges of code points.

A set is the list of its ranges, both ends included.  Two sets matter to the language: the blanks,
which separate lexemes and are trimmed from settings, and (in their own module) the characters
without a printed shape.
-/

namespace MiniLisp.Text

/-! ## Ranges -/

/-- A set of characters: the union of inclusive ranges of code points. -/
structure CharSet where
  ranges : List (Nat × Nat)

/-- Membership: some range holds the code point. -/
def CharSet.contains (s : CharSet) (c : Char) : Bool :=
  s.ranges.any fun r => r.1 ≤ c.toNat && c.toNat ≤ r.2

/-! ## Blanks -/

/-- The blanks: the controls that move the cursor, the four information separators, and every
space or line separator of Unicode.  Zero-width characters are not among them. -/
def blanks : CharSet where
  ranges :=
    [(0x09, 0x0d), (0x1c, 0x20), (0x85, 0x85), (0xa0, 0xa0), (0x1680, 0x1680), (0x2000, 0x200a),
     (0x2028, 0x2029), (0x202f, 0x202f), (0x205f, 0x205f), (0x3000, 0x3000)]

/-- A blank separates lexemes and belongs to none. -/
def isBlank (c : Char) : Bool := blanks.contains c

/-- The text without the blanks at its two ends. -/
def trim (s : String) : String :=
  String.ofList (((s.toList.dropWhile isBlank).reverse.dropWhile isBlank).reverse)

end MiniLisp.Text
