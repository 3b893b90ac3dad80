/-
# MiniLisp.Failure — the errors of a whole run, and their kinds.

A run fails while it reads or while it evaluates.  The kind of a failure says which rule of the
language was broken.  Two kinds are no errors of the language: an integer too long to be converted
and a nesting too deep for the reader or the evaluator.  A session turns the second into an error of
the language, `Failure.depthExceeded`.
-/
import MiniLisp.Node.Reader
import MiniLisp.Eval.Error

namespace MiniLisp

/-! ## Wording -/

/-- A lexical error in words, with its place where it has one. -/
def LexError.message (e : LexError) : String :=
  match e.fault with
  | .integerTooLong _ => e.fault.message
  | fault =>
    fault.message ++ " (line " ++ toString e.position.line ++ ", column "
      ++ toString e.position.column ++ ")"

/-- A reading error in words. -/
def ReadError.message : ReadError → String
  | .lexical e => e.message
  | .noToken => "Attempted to read next token, but there are none left."
  | .unexpectedClose => "Unexpected ')'"
  | .unclosedCall => "Unmatched '('"
  | .definitionName found =>
    "Expected identifier as first argument to 'defun', found " ++ found.quotedText
  | .parameterList name found =>
    "Expected parameter list after 'defun " ++ name ++ "', found " ++ found.quotedText
  | .parameter name found =>
    "Found " ++ found.quotedText ++ " in parameter list of '" ++ name
      ++ "' that isn't an identifier"
  | .unclosedDefinition name => "Unmatched '(' in definition of '" ++ name ++ "'"
  | .tooDeep => "maximum recursion depth exceeded"

/-! ## Failures -/

/-- Why a run ends early. -/
inductive Failure where
  | reading (e : ReadError)
  | evaluation (e : EvalError)
  /-- A session's own error for a run that nests too deep. -/
  | depthExceeded

/-- The failure in words. -/
def Failure.message : Failure → String
  | .reading e => e.message
  | .evaluation e => e.message
  | .depthExceeded => "Maximum evaluation depth exceeded."

/-- The rule that a failure broke. -/
inductive Failure.Kind where
  /-- The tokens form no program. -/
  | parse
  /-- The characters form no tokens. -/
  | lexical
  | unbound
  | notCallable
  | arity
  | mistyped
  | notPrintable
  | overflow
  | definition
  | endOfInput
  /-- A procedure without a body. -/
  | emptyBody
  /-- Nesting too deep, as an error of the language. -/
  | depth
  /-- A tree that no text gives. -/
  | malformed
  /-- An integer too long to be converted. -/
  | conversion
  /-- Nesting too deep for the reader or the evaluator. -/
  | room
deriving DecidableEq, Repr

namespace Failure

/-- The kind of a reading error. -/
def kindOfReading : ReadError → Kind
  | .lexical ⟨.integerTooLong _, _⟩ => .conversion
  | .lexical _ => .lexical
  | .tooDeep => .room
  | _ => .parse

/-- The kind of an evaluation error. -/
def kindOfEvaluation : EvalError → Kind
  | .unbound _ => .unbound
  | .notCallable .. | .notApplicable _ => .notCallable
  | .operandCount .. | .argumentCount .. => .arity
  | .emptyBody _ => .emptyBody
  | .notIntegers .. | .notCondition _ | .notBindable _ | .notParameterList ..
  | .notParameter .. => .mistyped
  | .notPrintable _ => .notPrintable
  | .overflow _ => .overflow
  | .nestedDefinition | .shortDefinition | .definitionName _ | .notDefinitionForm _ => .definition
  | .endOfInput => .endOfInput
  | .misplaced _ | .notNode _ | .notLiteral _ | .miscounted .. => .malformed
  | .tooDeep => .room

/-- The kind of a failure. -/
def kind : Failure → Kind
  | .reading e => kindOfReading e
  | .evaluation e => kindOfEvaluation e
  | .depthExceeded => .depth

/-- The place of a lexical error, where the failure is one. -/
def position? : Failure → Option Text.Position
  | .reading (.lexical e) => some e.position
  | _ => none

/-- The heading under which an error of the language is reported; `none` when it is none. -/
def Kind.heading? : Kind → Option String
  | .parse => some "ParseError"
  | .lexical => some "Tokenization Error"
  | .conversion | .room => none
  | _ => some "RuntimeError"

/-- The heading of a failure. -/
def heading? (f : Failure) : Option String := f.kind.heading?

end Failure

end MiniLisp
