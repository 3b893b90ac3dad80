/-
# MiniLisp.Text.Position — where an offset stands in a text.

Lines and columns count from one, in characters, and only a line feed ends a line.  An offset past
the end of the text keeps the line of the end and a column that keeps growing.
-/

namespace MiniLisp.Text

/-- A place in a text, as people count: the first character is at line 1, column 1. -/
structure Position where
  line : Nat
  column : Nat
deriving DecidableEq, Repr

/-- The number of characters after the last line feed of a text. -/
def lastLineLength (text : List Char) : Nat :=
  (text.reverse.takeWhile (· ≠ '\n')).length

/-- The place of the character at `offset`, or of the point `offset` characters from the start. -/
def position (text : List Char) (offset : Nat) : Position :=
  let before := text.take offset
  { line := before.count '\n' + 1
    column := lastLineLength before + (offset - before.length) + 1 }

end MiniLisp.Text
