/-
# MiniLisp.Value — what expressions evaluate to, and the scopes that values are bound in.

Numbers, truth values, texts, lists and the unit are plain data.  The rest can stand at the head of
a call: the builtins, which receive values; the special forms, which receive expressions; the
definition form, which only a statement may use; and the procedures a program makes.

A procedure remembers the scope it was made in.  A scope is a chain of single bindings that ends at
a table of definitions.  The chain is a value and never changes; the table does change as a program
defines more names, so a scope holds the table's number and not the table.  That is how a procedure
can call itself, and procedures that are defined after it.
-/
import MiniLisp.Node

namespace MiniLisp

/-! ## Predefined callables -/

/-- The functions every program starts with. -/
inductive Builtin where
  | add
  | subtract
  | less
  | toText
  | write
  | readLine
deriving DecidableEq, Repr

/-- The name a builtin is bound to. -/
def Builtin.name : Builtin → String
  | .add => "+"
  | .subtract => "-"
  | .less => "<"
  | .toText => "str"
  | .write => "write"
  | .readLine => "readline"

/-- The number of arguments a builtin takes. -/
def Builtin.arity : Builtin → Nat
  | .add | .subtract | .less => 2
  | .toText | .write => 1
  | .readLine => 0

/-- The forms with evaluation rules of their own. -/
inductive SpecialForm where
  /-- A condition and two branches. -/
  | choice
  /-- A name, its value, and the expression it is bound in. -/
  | binding
  /-- A parameter list and a body. -/
  | procedure
  /-- Any number of elements. -/
  | list
deriving DecidableEq, Repr

/-- The name a special form is bound to. -/
def SpecialForm.name : SpecialForm → String
  | .choice => "if"
  | .binding => "let"
  | .procedure => "lambda"
  | .list => "list"

/-- The number of operands a special form takes; `none` for any number. -/
def SpecialForm.arity : SpecialForm → Option Nat
  | .choice | .binding => some 3
  | .procedure => some 2
  | .list => none

/-! ## Procedures, values and scopes -/

/-- The text of a procedure: its name if it has one, its parameters and its body. -/
structure Procedure where
  name : Option String
  params : List String
  body : List Node

/-- A name for the procedure; an empty name counts as none. -/
def Procedure.name? (p : Procedure) : Option String := p.name.filter (· ≠ "")

/-- The number of a table of definitions. -/
abbrev TableId := Nat

mutual

/-- A value of the language. -/
inductive Value where
  | int (n : Int)
  | bool (b : Bool)
  | str (text : String)
  | list (items : List Value)
  /-- The result of statements, and of writing. -/
  | unit
  | builtin (b : Builtin)
  | form (f : SpecialForm)
  /-- The form that installs a named procedure in the table of definitions. -/
  | definer
  /-- A procedure and the scope it was made in. -/
  | closure (procedure : Procedure) (captured : Scope)

/-- Where names are looked up: single bindings, innermost first, above a table. -/
inductive Scope where
  | top (table : TableId)
  | frame (name : String) (value : Value) (outer : Scope)

end

instance : Inhabited Value := ⟨.unit⟩

instance : Inhabited Scope := ⟨.top 0⟩

namespace Value

/-- The name of a value's type. -/
def typeName : Value → String
  | .int _ => "Int"
  | .bool _ => "Boolean"
  | .str _ => "Str"
  | .list _ => "List"
  | .unit => "Unit"
  | .builtin _ => "Function"
  | .form _ => "LazyFunction"
  | .definer => "EnvMutatingFunction"
  | .closure .. => "Closure"

/-- A value that may stand at the head of a call. -/
def isCallable : Value → Bool
  | .builtin _ | .form _ | .definer | .closure .. => true
  | _ => false

/-- A number. -/
def isInt : Value → Bool
  | .int _ => true
  | _ => false

/-- The value a literal token denotes. -/
def ofToken? : Token → Option Value
  | .integer n => some (.int n)
  | .string text => some (.str text)
  | _ => none

end Value

end MiniLisp
