/-
# MiniLisp.Command.Options — the arguments of the command.

The command takes one program and a few options, in any order.  An option may be cut short as long
as it stays unambiguous, and a double dash ends the options.  Arguments are first told apart one by
one, and then taken from left to right, so that a request for help is granted if nothing before it
is wrong.
-/
import MiniLisp.Text.Numeral
import MiniLisp.Text.Quoted

namespace MiniLisp.Command

/-! ## Options -/

/-- What an option asks for. -/
inductive Flag where
  | help
  | debug
  | emitTree
deriving DecidableEq, Repr

/-- The spellings of the options. -/
def spellings : List (String × Flag) :=
  [("-h", .help), ("--help", .help), ("--debug", .debug), ("--emit-ast", .emitTree)]

/-- How an option is called in error messages. -/
def Flag.label : Flag → String
  | .help => "-h/--help"
  | .debug => "--debug"
  | .emitTree => "--emit-ast"

/-- A run of the command that its arguments ask for. -/
structure Options where
  debug : Bool := false
  emitTree : Bool := false
  program : String

/-- What is wrong with the arguments. -/
inductive UsageError where
  /-- A short form of several options. -/
  | ambiguous (arg : String) (candidates : List String)
  /-- A value for an option that takes none. -/
  | ignoredValue (flag : Flag) (value : String)
  | missingProgram
  | unrecognized (args : List String)

/-- The error in words. -/
def UsageError.message : UsageError → String
  | .ambiguous arg candidates =>
    "ambiguous option: " ++ arg ++ " could match " ++ ", ".intercalate candidates
  | .ignoredValue flag value =>
    "argument " ++ flag.label ++ ": ignored explicit argument " ++ Text.quoted value
  | .missingProgram => "the following arguments are required: program"
  | .unrecognized args => "unrecognized arguments: " ++ " ".intercalate args

/-- What the arguments ask for. -/
inductive Request where
  | run (options : Options)
  | help
  | refuse (e : UsageError)

/-! ## Telling arguments apart -/

/-- An argument by its role. -/
inductive Word where
  | positional (text : String)
  /-- The double dash after which every argument is positional. -/
  | separator
  /-- An option, and the value that an equals sign gives it. -/
  | option (flag : Flag) (value : Option String)
  /-- The short form of help with more characters joined to it. -/
  | joined (letters : List Char)
  | unknown (text : String)

/-- The text before the first equals sign and the text after it, where there is one. -/
def splitValue? (arg : List Char) : Option (String × String) :=
  match arg.dropWhile (· ≠ '=') with
  | [] => none
  | _ :: value => some (String.ofList (arg.takeWhile (· ≠ '=')), String.ofList value)

/-- A negative number, which is no option: digits, or a fraction; one line feed may follow. -/
def isNegativeNumber (arg : List Char) : Bool :=
  let isDigits := fun (cs : List Char) => !cs.isEmpty && cs.all fun c => (Text.digitValue? c).isSome
  match arg with
  | '-' :: body =>
    let body := if body.getLast? = some '\n' then body.dropLast else body
    let whole := body.takeWhile fun c => (Text.digitValue? c).isSome
    match body.drop whole.length with
    | [] => isDigits whole
    | '.' :: fraction => isDigits fraction
    | _ => false
  | _ => false

/-- The options that an argument with two dashes may be short for, and the value given to each. -/
def candidates (arg : List Char) : List (String × Flag × Option String) :=
  let (stem, value) := match splitValue? arg with
    | some (stem, value) => (stem.toList, some value)
    | none => (arg, none)
  (spellings.filter fun s => stem.isPrefixOf s.1.toList).map fun s => (s.1, s.2, value)

/-- The role of an argument that begins with a dash and is no option. -/
def classifyOther (arg : List Char) : Word :=
  if isNegativeNumber arg || arg.contains ' ' then .positional (String.ofList arg)
  else .unknown (String.ofList arg)

/-- The role of an option with a value.  Letters may be joined to the short form of help by an equals
sign too. -/
def classifyValue (stem : String) (flag : Flag) (value : String) : Word :=
  if stem = "-h" && value ≠ "" then .joined value.toList else .option flag (some value)

/-- The role of an argument that begins with a dash and is not exactly an option. -/
def classifyDashed (arg : List Char) : Except UsageError Word :=
  match (splitValue? arg).bind fun p => (spellings.lookup p.1).map fun flag => (p.1, flag, p.2) with
  | some (stem, flag, value) => .ok (classifyValue stem flag value)
  | none =>
    match arg with
    | '-' :: '-' :: _ =>
      match candidates arg with
      | [(_, flag, value)] => .ok (.option flag value)
      | [] => .ok (classifyOther arg)
      | several => .error (.ambiguous (String.ofList arg) (several.map (·.1)))
    | '-' :: 'h' :: letters => .ok (.joined letters)
    | _ => .ok (classifyOther arg)

/-- The role of an argument before the double dash. -/
def classify (arg : String) : Except UsageError Word :=
  match spellings.lookup arg with
  | some flag => .ok (.option flag none)
  | none =>
    match arg.toList with
    | '-' :: c :: rest => classifyDashed ('-' :: c :: rest)
    | _ => .ok (.positional arg)

/-- The roles of all arguments. -/
def classifyAll : List String → Except UsageError (List Word)
  | [] => .ok []
  | arg :: args =>
    if arg = "--" then .ok (.separator :: args.map .positional)
    else do return (← classify arg) :: (← classifyAll args)

/-! ## Taking arguments -/

/-- What has been taken so far. -/
structure Taken where
  debug : Bool := false
  emitTree : Bool := false
  program : Option String := none
  /-- Arguments that nobody asked for. -/
  extras : List String := []

/-- Takes the short form of help with the letters joined to it.  Each letter has to ask for help
again; what follows the last that does is a value, which help does not take. -/
def takeJoined : List Char → Request
  | [] => .help
  | c :: rest =>
    if c = 'h' then takeJoined rest else .refuse (.ignoredValue .help (String.ofList (c :: rest)))

/-- Takes arguments from left to right.  The double dash goes with the program next to it. -/
def take (taken : Taken) : List Word → Request
  | [] =>
    match taken.program with
    | none => .refuse .missingProgram
    | some program =>
      if taken.extras.isEmpty then
        .run { debug := taken.debug, emitTree := taken.emitTree, program }
      else .refuse (.unrecognized taken.extras)
  | .option flag (some value) :: _ => .refuse (.ignoredValue flag value)
  | .option .help none :: _ => .help
  | .option .debug none :: rest => take { taken with debug := true } rest
  | .option .emitTree none :: rest => take { taken with emitTree := true } rest
  | .joined letters :: _ => takeJoined letters
  | .unknown text :: rest => take { taken with extras := taken.extras ++ [text] } rest
  | .positional text :: .separator :: rest =>
    if taken.program.isNone then take { taken with program := some text } rest
    else take { taken with extras := taken.extras ++ [text, "--"] } rest
  | .positional text :: rest =>
    if taken.program.isNone then take { taken with program := some text } rest
    else take { taken with extras := taken.extras ++ [text] } rest
  | .separator :: .positional text :: rest =>
    if taken.program.isNone then take { taken with program := some text } rest
    else take { taken with extras := taken.extras ++ ["--", text] } rest
  | .separator :: rest => take { taken with extras := taken.extras ++ ["--"] } rest

/-- What the arguments of the command ask for. -/
def request (args : List String) : Request :=
  match classifyAll args with
  | .ok words => take {} words
  | .error e => .refuse e

end MiniLisp.Command
