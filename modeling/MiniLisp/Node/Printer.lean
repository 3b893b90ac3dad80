/-
# MiniLisp.Node.Printer — trees back to source text.

`Node.format` writes a node on one line; a program takes one line for each statement.
`Node.layout` keeps to a line width where it can: a node that does not fit is broken after its head
(a call's operator, a definition's name and parameters), and each further part goes to a line of its
own, two columns deeper.  A part is judged by its nominal column, twice its depth.
-/
import MiniLisp.Node

namespace MiniLisp.Node

/-! ## One line -/

/-- A definition up to its body, without the closing parenthesis. -/
def definitionHead (name : String) (params : List String) : String :=
  "(" ++ definitionKeyword ++ " " ++ name ++ " " ++ Text.parenthesized params

mutual

/-- The node as source text on one line. -/
def format : Node → String
  | .literal t => t.spelling
  | .identifier id => id
  | .call children => Text.parenthesized (formatAll children)
  | .definition name params body =>
    Text.parenthesized
      (definitionKeyword :: name :: Text.parenthesized params :: formatAll body)
  | .program statements => "\n".intercalate (formatAll statements)
  | .bare t => t.describe

/-- Each node as source text. -/
def formatAll : List Node → List String
  | [] => []
  | n :: ns => n.format :: formatAll ns

end

/-! ## Lines of limited width -/

/-- A text fits at a depth when its nominal column leaves room for it. -/
def fits (width depth : Int) (line : String) : Bool :=
  (line.length : Int) + depth * 2 ≤ width

/-- The blanks before a part of a node at `depth`. -/
def margin (depth : Int) : String :=
  String.ofList (List.replicate (2 * (depth + 1).toNat) ' ')

/-- A broken node: its head, then each part on its own line, then the closing parenthesis. -/
def broken (depth : Int) (head : String) (parts : List String) : String :=
  "\n".intercalate (head :: parts.map (margin depth ++ ·)) ++ ")"

mutual

/-- The node as source text at `depth`, broken where it does not fit into `width`. -/
def layout (width depth : Int) : Node → String
  | .program statements => "\n".intercalate (layoutAll width depth statements)
  | .definition name params body =>
    let line := (Node.definition name params body).format
    if fits width depth line then line
    else broken depth (definitionHead name params) (layoutAll width (depth + 1) body)
  | .call (head :: operands) =>
    let line := (Node.call (head :: operands)).format
    if fits width depth line then line
    else broken depth ("(" ++ layout width (depth + 1) head)
      (layoutAll width (depth + 1) operands)
  | n => n.format

/-- Each node as source text at `depth`. -/
def layoutAll (width depth : Int) : List Node → List String
  | [] => []
  | n :: ns => layout width depth n :: layoutAll width depth ns

end

/-- The width of a line where none is asked for. -/
def defaultWidth : Int := 80

end MiniLisp.Node
