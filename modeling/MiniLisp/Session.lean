/-
# MiniLisp.Session — programs run against a table of definitions.

A session keeps a table and a console across runs, so a program sees what earlier ones defined.  Its
statements are evaluated one by one, and the first that fails ends the run; what came before stays.
A definition is a statement of its own: nothing else ever changes the table.  A session also
records what happened in it, for a log.

Programs make procedures that end in the session's own table, which is number 0.  A table that was
filled by hand may also hold procedures that end in other tables.  A session looks up names there
when it runs such a procedure, and never changes what they mean.
-/
import MiniLisp.Eval
import MiniLisp.Failure

namespace MiniLisp

/-! ## Records of a run -/

/-- Something that happened. -/
inductive Event where
  /-- The tokens of a source text. -/
  | tokens (ts : List Token)
  /-- A program was read. -/
  | parsed (statements : List Node)
  /-- A statement was evaluated. -/
  | evaluated (v : Value)
  /-- A procedure was defined. -/
  | defined (name : String) (params : List String)

/-- The name of the log that an event belongs to; `command` is that of the command line's own. -/
def Event.logger (command : String) : Event → String
  | .tokens _ => command
  | .parsed _ | .evaluated _ => "theta.interpreter"
  | .defined .. => "theta.evaluation.special_forms.defun_form"

/-- The event in words. -/
def Event.message : Event → String
  | .tokens ts => "Tokens: [" ++ ", ".intercalate (ts.map Token.describe) ++ "]"
  | .parsed statements => "AST:\n" ++ Node.layout Node.defaultWidth 0 (.program statements)
  | .evaluated v => "=> " ++ v.inspect
  | .defined name params => "defined " ++ name ++ " " ++ Text.parenthesized params

/-! ## Sessions -/

/-- How deep reading and evaluation may nest.  Printing, for a record or for the command, is not
limited. -/
structure Limits where
  /-- Lists that may be open at once in a source text. -/
  nesting : Nat := 10000
  /-- Evaluations that may be active at once. -/
  depth : Nat := 10000

/-- A table of definitions and a console in use. -/
structure Session where
  table : Table := .initial
  console : Console := {}
  /-- What happened so far, oldest first. -/
  events : List Event := []
  /-- The other tables that procedures may end in. -/
  others : Tables := []

/-- A computation in a session; a failure leaves the session as it stands then. -/
abbrev Step := ExceptT Failure (StateM Session)

namespace Session

/-- The scope of statements. -/
def scope : Scope := .top 0

/-- The tables that evaluation reads: the session's own, and then the others. -/
def tables (s : Session) : Tables := s.table :: s.others

/-- Records an event. -/
def record (e : Event) : Step Unit := modify fun s => { s with events := s.events ++ [e] }

/-- Binds a name at top level. -/
def define (name : String) (v : Value) : Step Unit :=
  modify fun s => { s with table := s.table.define name v }

/-- Runs an action on the session's console. -/
def perform {α : Type} (act : Action α) : Step α := fun s =>
  match act s.console with
  | (.ok a, console) => (.ok a, { s with console })
  | (.error e, console) => (.error (.evaluation e), { s with console })

/-- The value of an expression at top level. -/
def evaluate (limits : Limits) (n : Node) : Step Value := do
  perform (eval (← get).tables limits.depth n scope)

/-- What a name means at top level. -/
def lookup (name : String) : Step Value := do
  perform (Eval.find (← get).tables scope name)

/-- Whether a name is bound at top level. -/
def contains (name : String) : Step Bool := do return (← get).table.contains name

/-- Binds the names that every program starts with, in place of what they were bound to. -/
def register : Step Unit := modify fun s => { s with table := s.table.register }

/-- Writes a line. -/
def writeLine (text : String) : Step Unit := perform (Eval.writeLine text)

/-- Reads a line. -/
def readLine : Step String := perform Eval.readLine

/-! ## Definitions -/

/-- The procedure that the operands of a definition describe. -/
def procedureOf : List Node → Except EvalError (String × Procedure)
  | .identifier name :: params :: body =>
    match Eval.parameters name params with
    | .ok params => .ok (name, { name := some name, params, body })
    | .error e => .error e
  | n :: _ :: _ => .error (.definitionName n)
  | _ => .error .shortDefinition

/-- Installs the procedure that the operands of a definition describe. -/
def install (operands : List Node) : Step Value := do
  match procedureOf operands with
  | .error e => throw (.evaluation e)
  | .ok (name, p) =>
    define name (.closure p scope)
    record (.defined name p.params)
    return .unit

/-- The operands of a call whose operator is a name for the definition form. -/
def definitionCall? (t : Table) : Node → Option (List Node)
  | .call (.identifier x :: operands) =>
    match t.lookup? x with
    | some .definer => some operands
    | _ => none
  | _ => none

/-! ## Statements -/

mutual

/-- Evaluates a statement. -/
def statement (limits : Limits) : Node → Step Value
  | .program ns => do
    statements limits ns
    return .unit
  | .definition name params body => do
    match ← lookup Node.definitionKeyword with
    | .definer => install (Node.definitionOperands name params body)
    | v => throw (.evaluation (.notDefinitionForm v))
  | n => do
    match definitionCall? (← get).table n with
    | some operands => install operands
    | none => evaluate limits n

/-- Evaluates statements in turn, up to the first that fails. -/
def statements (limits : Limits) : List Node → Step Unit
  | [] => return ()
  | n :: ns => do
    let _ ← statement limits n
    statements limits ns

end

/-- Evaluates statements in turn and records each value; the value is that of the last, or `value`
where there is none. -/
def values (limits : Limits) (value : Value) : List Node → Step Value
  | [] => return value
  | n :: ns => do
    let v ← statement limits n
    record (.evaluated v)
    values limits v ns

/-! ## Source texts -/

/-- The statements of a source text. -/
def parse (limits : Limits) (source : String) : Step (List Node) := do
  match Reader.parse limits.nesting source with
  | .error e => throw (.reading e)
  | .ok ns =>
    record (.parsed ns)
    return ns

/-- A run that nests too deep fails with an error of the language. -/
def reportDepth : Failure → Failure
  | .reading .tooDeep | .evaluation .tooDeep => .depthExceeded
  | f => f

/-- Makes a nesting too deep an error of the language. -/
def boundDepth {α : Type} (step : Step α) : Step α := fun s =>
  match step s with
  | (.error f, s) => (.error (reportDepth f), s)
  | (.ok a, s) => (.ok a, s)

/-- Runs every statement of a source text; the value is that of the last. -/
def evalSource (limits : Limits) (source : String) : Step Value :=
  boundDepth do values limits .unit (← parse limits source)

/-- Runs a source text as a whole program. -/
def runSource (limits : Limits) (source : String) : Step Value :=
  boundDepth do
    statements limits (← parse limits source)
    return .unit

/-- Runs a program in a new session with a text to read. -/
def runProgram (limits : Limits) (source input : String) : Except Failure Value × Session :=
  runSource limits source { console := .ofInput input }

end Session

end MiniLisp
