/-
# MiniLisp.Eval — the value of an expression.

An expression is evaluated in a scope, against tables of definitions that evaluation only reads.
What it may change is the console.  A call evaluates its operator first, and the operator's value
decides how the operands are treated:

* a builtin checks their number, then receives their values, computed from left to right;
* a special form checks their number, then receives the expressions themselves;
* a procedure receives their values, then checks their number, and its body is evaluated in its own
  scope, extended by the arguments.

`eval` takes the number of evaluations that may be active at once, and fails where one more is
needed.  All else is written against an `Evaluator`, which is `eval` with one less.
-/
import MiniLisp.Integer
import MiniLisp.Scope
import MiniLisp.Console
import MiniLisp.Eval.Error

namespace MiniLisp

/-- A computation that may read, write and fail. -/
abbrev Action := ExceptT EvalError (StateM Console)

namespace Eval

/-- How the expressions inside an expression are evaluated. -/
abbrev Evaluator := Node → Scope → Action Value

/-! ## Builtins -/

/-- A number in range, as the result of `name`. -/
def checkRange (name : String) (n : Int) : Except EvalError Int :=
  if minInt ≤ n ∧ n ≤ maxInt then .ok n else .error (.overflow name)

/-- The text of a value, where it has one. -/
def displayText (v : Value) : Except EvalError String :=
  match v.display with
  | .ok text => .ok text
  | .error part => .error (.notPrintable part)

/-- Writes a line. -/
def writeLine (text : String) : Action Unit := fun c => (.ok (), c.writeLine text)

/-- Reads a line. -/
def readLine : Action String := fun c =>
  match c.readLine? with
  | some (line, c) => (.ok line, c)
  | none => (.error .endOfInput, c)

/-- Runs a builtin on its arguments. -/
def runBuiltin : Builtin → List Value → Action Value
  | .add, [.int m, .int n] => return .int (← checkRange Builtin.add.name (m + n))
  | .subtract, [.int m, .int n] => return .int (← checkRange Builtin.subtract.name (m - n))
  | .less, [.int m, .int n] => return .bool (m < n)
  | .toText, [v] => return .str (← displayText v)
  | .write, [v] => do
    writeLine (← displayText v)
    return .unit
  | .readLine, [] => return .str (← readLine)
  | .add, [v, w] => throw (.notIntegers .add v w)
  | .subtract, [v, w] => throw (.notIntegers .subtract v w)
  | .less, [v, w] => throw (.notIntegers .less v w)
  | b, args => throw (.miscounted b.name args.length)

/-! ## Operands -/

/-- The number of operands has to be the arity, where there is one. -/
def checkArity (name : String) (arity : Option Int) (found : Int) : Except EvalError Unit :=
  match arity with
  | none => .ok ()
  | some n => if found = n then .ok () else .error (.operandCount name n found)

/-- The values of expressions, computed from left to right. -/
def evalAll (ev : Evaluator) (s : Scope) : List Node → Action (List Value)
  | [] => return []
  | n :: ns => do
    let v ← ev n s
    let vs ← evalAll ev s ns
    return v :: vs

/-! ## Special forms -/

/-- The names in a parameter list of `owner`. -/
def identifiers (owner : String) : List Node → Except EvalError (List String)
  | [] => .ok []
  | .identifier x :: ns =>
    match identifiers owner ns with
    | .ok xs => .ok (x :: xs)
    | .error e => .error e
  | n :: _ => .error (.notParameter owner n)

/-- The parameters that a node gives to `owner`. -/
def parameters (owner : String) : Node → Except EvalError (List String)
  | .call children => identifiers owner children
  | n => .error (.notParameterList owner n)

/-- Runs a special form on its operands. -/
def runForm (ev : Evaluator) (s : Scope) : SpecialForm → List Node → Action Value
  | .choice, [condition, yes, no] => do
    match ← ev condition s with
    | .bool b => ev (if b then yes else no) s
    | v => throw (.notCondition v)
  | .binding, [.identifier x, value, body] => do
    let v ← ev value s
    ev body (.frame x v s)
  | .binding, [n, _, _] => throw (.notBindable n)
  | .procedure, [params, body] => do
    let xs ← parameters SpecialForm.procedure.name params
    return .closure { name := none, params := xs, body := [body] } s
  | .list, operands => return .list (← evalAll ev s operands)
  | f, operands => throw (.miscounted f.name operands.length)

/-! ## Procedures -/

/-- A procedure's own scope, extended by its arguments: one for each parameter. -/
def bind (p : Procedure) (captured : Scope) (args : List Value) : Except EvalError Scope :=
  if args.length = p.params.length then .ok (captured.extend (p.params.zip args))
  else .error (.argumentCount p args.length)

/-- Evaluates expressions in turn; the value is that of the last, or `value` where there is none. -/
def evalBody (ev : Evaluator) (s : Scope) (value : Value) : List Node → Action Value
  | [] => return value
  | n :: ns => do evalBody ev s (← ev n s) ns

/-- Runs a procedure on its arguments. -/
def runProcedure (ev : Evaluator) (p : Procedure) (captured : Scope) (args : List Value) :
    Action Value := do
  let s ← bind p captured args
  if p.body.isEmpty then throw (.emptyBody p)
  evalBody ev s .unit p.body

/-! ## Calls and expressions -/

/-- Applies a value to operands that are not evaluated yet. -/
def apply (ev : Evaluator) (s : Scope) (operands : List Node) : Value → Action Value
  | .builtin b => do
    checkArity b.name (some b.arity) operands.length
    runBuiltin b (← evalAll ev s operands)
  | .form f => do
    checkArity f.name (f.arity.map Int.ofNat) operands.length
    runForm ev s f operands
  | .closure p captured => do runProcedure ev p captured (← evalAll ev s operands)
  | .definer => throw .nestedDefinition
  | v => throw (.notApplicable v)

/-- What a name means, where it means anything. -/
def find (ts : Tables) (s : Scope) (x : String) : Except EvalError Value :=
  match s.lookup? ts x with
  | some v => .ok v
  | none => .error (.unbound x)

/-- The value that a literal token denotes. -/
def literal (t : Token) : Except EvalError Value :=
  match Value.ofToken? t with
  | some v => .ok v
  | none => .error (.notLiteral t)

end Eval

/-- The value of an expression in a scope, with room for `depth` evaluations at once. -/
def eval (ts : Tables) : (depth : Nat) → Eval.Evaluator
  | 0, _, _ => throw .tooDeep
  | _ + 1, .literal t, _ => Eval.literal t
  | _ + 1, .identifier x, s => Eval.find ts s x
  | _ + 1, .call [], _ => return .list []
  | depth + 1, .call (head :: operands), s => do
    let f ← eval ts depth head s
    if !f.isCallable then throw (.notCallable head f)
    Eval.apply (eval ts depth) s operands f
  | _ + 1, .program _, _ => throw (.misplaced "Program")
  | _ + 1, .definition .., _ => throw (.misplaced "Defun")
  | _ + 1, .bare t, _ => throw (.notNode t)

end MiniLisp
