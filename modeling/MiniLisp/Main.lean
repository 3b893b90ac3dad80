/-
# MiniLisp.Main — the executable.

The outer layer of the command: it fetches the program file, the environment and the standard input,
and passes on what `Command.run` makes of them.
-/
import MiniLisp.Command

namespace MiniLisp.Command

/-- Whether an error has the system's code `n`, which some calls report with its sign turned. -/
def hasCode (n code : UInt32) : Bool := code = n || code = 0 - n

/-- The fault that an error of the file system stands for. -/
def faultOf : IO.Error → FileFault
  | .noFileOrDirectory .. => .notFound
  | .inappropriateType _ code _ => if hasCode 20 code then .notDirectory else .isDirectory
  | .invalidArgument _ code details => if hasCode 36 code then .nameTooLong else .other details
  | .permissionDenied .. => .other "Permission denied"
  | e => .other e.toString

/-- The bytes of the file at a path, or why there are none. -/
def fetch (p : Path) : IO (Except FileFault ByteArray) := do
  try
    return .ok (← IO.FS.readBinFile p.toString)
  catch e =>
    return .error (faultOf e)

/-- Everything on standard input. -/
def readInput : IO String := do
  let stdin ← IO.getStdin
  let mut text := ""
  let mut line ← stdin.getLine
  while !line.isEmpty do
    text := text ++ line
    line ← stdin.getLine
  return text

/-- The variables of the environment that settings are read from. -/
def fetchEnvironment : IO Environment := do
  let mut env := []
  for name in [Settings.levelVariable, Settings.depthVariable] do
    if let some value ← IO.getEnv name then env := (name, value) :: env
  return env

/-- Whether running the program could read a line: only a name in its text leads to the builtin. -/
def mayRead (bytes : ByteArray) : Bool :=
  match decode bytes with
  | .ok source =>
    match tokenize source with
    | .ok ts => ts.contains (.symbol Builtin.readLine.name)
    | .error _ => true
  | .error _ => false

end MiniLisp.Command

open MiniLisp MiniLisp.Command in
/-- Runs the command. -/
def main (args : List String) : IO UInt32 := do
  let fetched ← match request args with
    | .run o => fetch (Path.ofString o.program)
    | _ => pure (.error .notFound)
  let reads := match fetched with
    | .ok bytes => mayRead bytes
    | .error _ => false
  let stdin ← if reads then readInput else pure ""
  let around : Surroundings :=
    { environment := ← fetchEnvironment, stdin, read := fun _ => fetched }
  let outcome := run {} around args
  IO.print outcome.stdout
  IO.eprint (outcome.stderrText "theta.__main__")
  match outcome.ending with
  | .exit status => return status.toUInt32
  | .escape e => do
    IO.eprintln e.message
    return 1
