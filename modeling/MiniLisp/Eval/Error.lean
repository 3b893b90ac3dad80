/-
# MiniLisp.Eval.Error — what can go wrong in an evaluation.

An error is its cause, with the values and expressions it is about.  The wording is in one place,
`EvalError.message`.
-/
import MiniLisp.Value.Printer
import MiniLisp.Node.Printer

namespace MiniLisp

/-- Why an evaluation fails. -/
inductive EvalError where
  /-- A name that is bound nowhere. -/
  | unbound (name : String)
  /-- The operator `head` of a call has a value that cannot be called. -/
  | notCallable (head : Node) (found : Value)
  /-- A value that cannot be called was applied. -/
  | notApplicable (found : Value)
  /-- The wrong number of operands for a predefined callable. -/
  | operandCount (name : String) (arity found : Int)
  /-- The wrong number of arguments for a procedure. -/
  | argumentCount (p : Procedure) (found : Nat)
  | emptyBody (p : Procedure)
  /-- A builtin on numbers was given something else. -/
  | notIntegers (b : Builtin) (left right : Value)
  /-- A condition that is no truth value. -/
  | notCondition (found : Value)
  /-- Something else in place of the name that a binding form binds. -/
  | notBindable (found : Node)
  /-- Something else in place of the parameter list of `owner`. -/
  | notParameterList (owner : String) (found : Node)
  /-- Something else in place of a parameter of `owner`. -/
  | notParameter (owner : String) (found : Node)
  /-- A value, or a part of one, that has no text. -/
  | notPrintable (found : Value)
  /-- A result outside the range of numbers. -/
  | overflow (name : String)
  /-- A definition inside an expression. -/
  | nestedDefinition
  /-- A definition without a name and a parameter list. -/
  | shortDefinition
  /-- Something else in place of the name of a definition. -/
  | definitionName (found : Node)
  /-- The word that begins definitions is bound to something else. -/
  | notDefinitionForm (found : Value)
  | endOfInput
  /-- A program or a definition where an expression belongs. -/
  | misplaced (kind : String)
  /-- A token where a node belongs. -/
  | notNode (found : Token)
  /-- A token that denotes no value. -/
  | notLiteral (found : Token)
  /-- A predefined callable was run with operands its arity rules out. -/
  | miscounted (name : String) (found : Nat)
  /-- More expressions are being evaluated at once than there is room for. -/
  | tooDeep

/-- What a procedure is called in messages. -/
def Procedure.label (p : Procedure) : String := p.name?.getD "lambda expression"

/-- The error in words. -/
def EvalError.message : EvalError → String
  | .unbound name => "Failed to find identifier " ++ Text.quoted name ++ " in environment."
  | .notCallable head found =>
    "First argument, " ++ head.format ++ " to function call is not a function value (found "
      ++ found.typeName ++ ")."
  | .notApplicable found => "Could not evaluate " ++ found.describe ++ " as a function call."
  | .operandCount name arity found =>
    "'" ++ name ++ "' expects " ++ toString arity ++ " argument"
      ++ (if arity = 1 then "" else "s") ++ ", found " ++ toString found ++ "."
  | .argumentCount p found =>
    "Invalid number of arguments passed to " ++ p.label ++ ". Expected: "
      ++ toString p.params.length ++ " Found: " ++ toString found
  | .emptyBody p => "Not enough expressions in the body of " ++ p.label ++ " to evaluate."
  | .notIntegers b left right =>
    "Expected both args to '" ++ b.name ++ "' to be integers. Found " ++ left.typeName ++ " "
      ++ left.describe ++ " and " ++ right.typeName ++ " " ++ right.describe ++ "."
  | .notCondition found =>
    "Could not evaluate " ++ found.typeName ++ " value " ++ found.describe
      ++ " as a Boolean condition."
  | .notBindable found =>
    "Expected identifier as first argument to 'let', found " ++ found.describe
  | .notParameterList owner found =>
    "Expected a parameter list in '" ++ owner ++ "', found " ++ found.describe
  | .notParameter owner found =>
    "Found expression in '" ++ owner ++ "' arg list that isn't an identifier: " ++ found.describe
  | .notPrintable found =>
    "Could not convert " ++ found.typeName ++ " value to a string: " ++ found.describe
  | .overflow name => "Result of '" ++ name ++ "' overflows a 64-bit integer."
  | .nestedDefinition =>
    "'" ++ Node.definitionKeyword ++ "' may only appear as a top-level statement."
  | .shortDefinition => "defun requires a name and a parameter list"
  | .definitionName found =>
    "Expected identifier as first argument to defun. Found " ++ found.describe
  | .notDefinitionForm found =>
    "'" ++ Node.definitionKeyword ++ "' is bound to " ++ found.typeName
      ++ ", not a definition form."
  | .endOfInput => "readline reached the end of input"
  | .misplaced kind => "Found " ++ kind ++ " node which should've been handled already."
  | .notNode found => "Unknown AST node " ++ found.describe
  | .notLiteral found => "Could not convert token " ++ found.describe ++ " to a value."
  | .miscounted name found => "'" ++ name ++ "' was run with " ++ toString found ++ " operands."
  | .tooDeep => "maximum recursion depth exceeded"

end MiniLisp
