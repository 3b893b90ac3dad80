/-
# MiniLisp.Node — programs as trees.

A program is a sequence of statements.  A statement is a definition or an expression, and an
expression is a literal, a name, or a call: a row of expressions of which the first is the operator.
Readers only make trees of this shape; a tree built by hand may put any node anywhere, and may hold
a bare token where a node belongs.
-/
import MiniLisp.Token
import MiniLisp.Text.Tuple

namespace MiniLisp

/-- A node of a program's tree. -/
inductive Node where
  /-- A constant; readers make it of integers and strings only. -/
  | literal (token : Token)
  /-- A name: a reference to what it is bound to. -/
  | identifier (id : String)
  /-- The operator and the operands; nothing at all for the empty list. -/
  | call (children : List Node)
  /-- A function's name, its parameters and the expressions of its body. -/
  | definition (name : String) (params : List String) (body : List Node)
  | program (statements : List Node)
  /-- A token in place of a node. -/
  | bare (token : Token)
deriving Inhabited

namespace Node

/-- The word that begins a definition. -/
def definitionKeyword : String := "defun"

/-- What a definition hands to the definition form: its name, its parameters as a list of names,
and its body. -/
def definitionOperands (name : String) (params : List String) (body : List Node) : List Node :=
  .identifier name :: .call (params.map .identifier) :: body

/-! ## Descriptions -/

mutual

/-- The node written out in full, for messages. -/
def describe : Node → String
  | .literal t => "Terminal(token=" ++ t.describe ++ ")"
  | .identifier id => "Identifier(name=" ++ Text.quoted id ++ ")"
  | .call children => "SExpr(children=" ++ Text.tuple (describeAll children) ++ ")"
  | .definition name params body =>
    "Defun(name=" ++ Text.quoted name ++ ", params=" ++ Text.tuple (params.map Text.quoted)
      ++ ", body=" ++ Text.tuple (describeAll body) ++ ")"
  | .program statements => "Program(statements=" ++ Text.tuple (describeAll statements) ++ ")"
  | .bare t => t.describe

/-- Each node written out in full. -/
def describeAll : List Node → List String
  | [] => []
  | n :: ns => n.describe :: describeAll ns

end

end Node

end MiniLisp
