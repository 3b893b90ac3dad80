/-
# MiniLisp.Token — the words of the language.

A source text is a sequence of parentheses, integer and string literals, and symbols.  A token of
any other class never comes out of a text; it is kept as its two texts, so that a tree built by hand
around it can still be described.
-/
import MiniLisp.Text.Quoted

namespace MiniLisp

/-- A word of the language. -/
inductive Token where
  | openParen
  | closeParen
  | integer (n : Int)
  /-- The text between two double quotes, as it stands there. -/
  | string (text : String)
  | symbol (name : String)
  /-- A token that no text contains: the name of its class and its text. -/
  | foreign (className text : String)
deriving DecidableEq, Repr, Inhabited

namespace Token

/-- The name of a token's class. -/
def className : Token → String
  | .openParen => "lparen"
  | .closeParen => "rparen"
  | .integer _ => "integer"
  | .string _ => "string"
  | .symbol _ => "symbol"
  | .foreign name _ => name

/-- A token's own text: digits, the inside of a string, a name, a parenthesis. -/
def text : Token → String
  | .openParen => "("
  | .closeParen => ")"
  | .integer n => toString n
  | .string text => text
  | .symbol name => name
  | .foreign _ text => text

/-- The token as a program spells it: strings stand between double quotes. -/
def spelling : Token → String
  | .string text => "\"" ++ text ++ "\""
  | t => t.text

/-- A token's own text as a value in a message: quoted, except for a number. -/
def quotedText : Token → String
  | .integer n => toString n
  | t => Text.quoted t.text

/-- The token written out in full, for messages and logs. -/
def describe (t : Token) : String :=
  "Token(kind=" ++ Text.quoted t.className ++ ", value=" ++ t.quotedText ++ ")"

end Token

end MiniLisp
