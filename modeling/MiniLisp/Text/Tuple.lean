/-
# MiniLisp.Text.Tuple — a row of written items between parentheses.

Commas separate the items, and a single item keeps a comma of its own, which tells it from a mere
parenthesis.
-/

namespace MiniLisp.Text

/-- The items between parentheses, with commas. -/
def tuple : List String → String
  | [item] => "(" ++ item ++ ",)"
  | items => "(" ++ ", ".intercalate items ++ ")"

/-- The items between parentheses, with blanks. -/
def parenthesized (items : List String) : String :=
  "(" ++ " ".intercalate items ++ ")"

end MiniLisp.Text
