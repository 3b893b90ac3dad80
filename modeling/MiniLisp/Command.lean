/-
# MiniLisp.Command — the command that runs a program file.

The command reads a file, and then either runs it as a program or, where it is asked for the tree,
prints it in normal form.  Its end is an exit status: 0 for success, 1 for an error of the language,
2 for wrong usage or an unreadable file.  What is no error of the language is not caught, and
escapes.  On the error stream the records of the run come first, where they are asked for, and
then the report of a failure.
-/
import MiniLisp.Command.Files
import MiniLisp.Command.Options
import MiniLisp.Session
import MiniLisp.Settings
import MiniLisp.Text.Newline
import MiniLisp.Text.Utf8

namespace MiniLisp.Command

/-! ## Outcomes -/

/-- Something that the command does not catch. -/
inductive Escape where
  | failure (f : Failure)
  | depth (e : Settings.DepthError)
  /-- A depth too great to be set. -/
  | depthTooLarge
  /-- A path with a null character in it. -/
  | nullInPath

/-- What escaped, in words. -/
def Escape.message : Escape → String
  | .failure f => f.message
  | .depth e => e.message
  | .depthTooLarge => "Python int too large to convert to C int"
  | .nullInPath => "embedded null byte"

/-- How a run of the command ends. -/
inductive Ending where
  | exit (status : Nat)
  | escape (e : Escape)

/-- A piece of the error stream. -/
inductive Notice where
  /-- A record of the run. -/
  | record (e : Event)
  | text (s : String)

/-- The notice as it is written; `command` is the name of the command's own log. -/
def Notice.render (command : String) : Notice → String
  | .record e => "DEBUG:" ++ e.logger command ++ ":" ++ e.message ++ "\n"
  | .text s => s

/-- What a run of the command leaves behind. -/
structure Outcome where
  ending : Ending
  stdout : String := ""
  stderr : List Notice := []

/-- The error stream of a run. -/
def Outcome.stderrText (command : String) (o : Outcome) : String :=
  String.join (o.stderr.map (·.render command))

/-- What surrounds a run of the command. -/
structure Surroundings where
  environment : Environment := []
  /-- The text on standard input, before its line ends are unified. -/
  stdin : String := ""
  /-- Reads a file. -/
  read : Path → Except FileFault ByteArray

/-! ## Fixed texts -/

/-- The synopsis. -/
def usage : String := "usage: theta [-h] [--debug] [--emit-ast] program\n"

/-- The help text. -/
def help : String :=
  usage ++
  "\n" ++
  "Theta language interpreter\n" ++
  "\n" ++
  "positional arguments:\n" ++
  "  program     Theta program file to execute\n" ++
  "\n" ++
  "options:\n" ++
  "  -h, --help  show this help message and exit\n" ++
  "  --debug     log tokens, AST and definitions\n" ++
  "  --emit-ast  print the parsed program instead of running it\n"

/-- The report of a usage error. -/
def usageReport (e : UsageError) : String := usage ++ "theta: error: " ++ e.message ++ "\n"

/-- The report of an unreadable file. -/
def unreadable (p : Path) (reason : String) : String :=
  "Error: could not read " ++ p.toString ++ ": " ++ reason ++ "\n"

/-- The report of an error of the language. -/
def failureReport (heading : String) (f : Failure) : String :=
  "Encountered " ++ heading ++ ".\nMessage: " ++ f.message ++ "\n"

/-! ## Source texts -/

/-- The source text in the bytes of a file, or the reason why there is none. -/
def decode (bytes : ByteArray) : Except String String :=
  match Text.decodeUtf8 bytes with
  | .ok text => .ok (String.ofList (Text.unifyNewlines text))
  | .error (fault, offset) => .error (fault.reason ++ " at byte " ++ toString offset)

/-- The tokens of a source text, for the log. -/
def recordTokens (source : String) : Step Unit := do
  match tokenize source with
  | .ok ts => Session.record (.tokens ts)
  | .error e => throw (.reading (.lexical e))

/-- The program in normal form. -/
def normalForm (limits : Limits) (source : String) : Step String := do
  let ns ← Session.parse limits source
  return Node.layout Node.defaultWidth 0 (.program ns) ++ "\n"

/-- Does with a source text what the options ask for; the result is the text to print after what the
program wrote. -/
def process (limits : Limits) (o : Options) (source : String) : Step String := do
  if o.debug then recordTokens source
  if o.emitTree then normalForm limits source
  else
    let _ ← Session.runSource limits source
    return ""

/-! ## The command -/

/-- Fails where the depth that the environment asks for cannot be set.  No depth is too small: the
one in force is never lowered. -/
def checkDepth (env : Environment) : Except Escape Unit :=
  match Settings.depth env with
  | .error e => .error (.depth e)
  | .ok n => if n ≤ Settings.maxDepth then .ok () else .error .depthTooLarge

theorem checkDepth_eq_ok_iff {env : Environment} :
    checkDepth env = .ok () ↔ ∃ n, Settings.depth env = .ok n ∧ n ≤ Settings.maxDepth := by
  unfold checkDepth
  cases Settings.depth env with
  | error e => simp
  | ok n => simp

/-- The records of a session, where the log level asks for them. -/
def records (level : Nat) (s : Session) : List Notice :=
  if level ≤ Settings.debugLevel then s.events.map .record else []

/-- Runs the command on a source text. -/
def runSource (limits : Limits) (o : Options) (level : Nat) (input source : String) : Outcome :=
  match process limits o source { console := .ofInput input } with
  | (.ok printed, s) =>
    { ending := .exit 0, stdout := s.console.output ++ printed, stderr := records level s }
  | (.error f, s) =>
    match f.heading? with
    | some heading =>
      { ending := .exit 1
        stdout := s.console.output
        stderr := records level s ++ [.text (failureReport heading f)] }
    | none =>
      { ending := .escape (.failure f), stdout := s.console.output, stderr := records level s }

/-- Runs the command on the program that the options name.  The depth is checked before the file is
looked for; how much room it gives a run is said by `limits`. -/
def runOptions (limits : Limits) (around : Surroundings) (o : Options) : Outcome :=
  let level := if o.debug then Settings.debugLevel else Settings.logLevel around.environment
  match checkDepth around.environment with
  | .error e => { ending := .escape e }
  | .ok () =>
    let path := Path.ofString o.program
    if o.program.toList.contains '\x00' then { ending := .escape .nullInPath }
    else match around.read path with
      | .error fault => { ending := .exit 2, stderr := [.text (unreadable path fault.reason)] }
      | .ok bytes =>
        match decode bytes with
        | .error reason => { ending := .exit 2, stderr := [.text (unreadable path reason)] }
        | .ok source =>
          let input := String.ofList (Text.unifyNewlines around.stdin.toList)
          runSource limits o level input source

/-- Runs the command. -/
def run (limits : Limits) (around : Surroundings) (args : List String) : Outcome :=
  match request args with
  | .help => { ending := .exit 0, stdout := help }
  | .refuse e => { ending := .exit 2, stderr := [.text (usageReport e)] }
  | .run o => runOptions limits around o

end MiniLisp.Command
