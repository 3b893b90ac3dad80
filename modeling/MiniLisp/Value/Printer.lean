/-
# MiniLisp.Value.Printer — three written forms of a value.

* `describe` is for messages: it covers every value, and quotes texts as `Text.quoted` does.
* `display` is what a program writes.  The unit and the callables have no such form, so it answers
  with the value that stands in the way where there is one.
* `inspect` is for logs: like `display`, but with texts between double quotes and with the
  description of whatever cannot be displayed.
-/
import MiniLisp.Value

namespace MiniLisp

/-- A procedure's head: its name and its parameters. -/
def Procedure.describe (p : Procedure) : String :=
  let head := match p.name? with
    | some name => "<closure " ++ name
    | none => "<lambda"
  head ++ " " ++ Text.parenthesized p.params ++ ">"

/-- A truth value in a program's output. -/
def displayBool (b : Bool) : String := if b then "true" else "false"

namespace Value

mutual

/-- The value written out in full, for messages. -/
def describe : Value → String
  | .int n => toString n
  | .bool b => if b then "True" else "False"
  | .str text => Text.quoted text
  | .list items => Text.tuple (describeAll items)
  | .unit => "Unit"
  | .builtin b => "<builtin " ++ b.name ++ ">"
  | .form f => "<special form " ++ f.name ++ ">"
  | .definer => "<definition form " ++ Node.definitionKeyword ++ ">"
  | .closure p _ => p.describe

/-- Each value written out in full. -/
def describeAll : List Value → List String
  | [] => []
  | v :: vs => v.describe :: describeAll vs

end

mutual

/-- The text a program writes for a value, or the first part of it that has none. -/
def display : Value → Except Value String
  | .int n => .ok (toString n)
  | .bool b => .ok (displayBool b)
  | .str text => .ok text
  | .list items =>
    match displayAll items with
    | .ok texts => .ok (Text.parenthesized texts)
    | .error v => .error v
  | v => .error v

/-- The text of each value, or the first part that has none. -/
def displayAll : List Value → Except Value (List String)
  | [] => .ok []
  | v :: vs =>
    match display v with
    | .error w => .error w
    | .ok text =>
      match displayAll vs with
      | .error w => .error w
      | .ok texts => .ok (text :: texts)

end

mutual

/-- The value as logs show it. -/
def inspect : Value → String
  | .int n => toString n
  | .bool b => displayBool b
  | .str text => "\"" ++ text ++ "\""
  | .list items => Text.parenthesized (inspectAll items)
  | v => v.describe

/-- Each value as logs show it. -/
def inspectAll : List Value → List String
  | [] => []
  | v :: vs => v.inspect :: inspectAll vs

end

end Value

end MiniLisp
