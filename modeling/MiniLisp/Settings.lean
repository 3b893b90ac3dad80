/-
# MiniLisp.Settings — what the environment asks for.

Two variables are read: how much to log, and how deep evaluation may nest.  A name of a log level is
matched without regard to blanks around it and to case, and an unknown one means the default.  The
depth has to be a numeral; a blank one means the default.  Not every depth that can be asked for can
be set: there is a greatest one.
-/
import MiniLisp.Text.CharSet
import MiniLisp.Text.Numeral
import MiniLisp.Text.Quoted

namespace MiniLisp

/-- The variables of an environment. -/
abbrev Environment := List (String × String)

namespace Settings

/-! ## Log levels -/

/-- The level at which everything is logged that a run records. -/
def debugLevel : Nat := 10

/-- The level where none is asked for: warnings. -/
def defaultLevel : Nat := 30

/-- The names of the levels. -/
def levels : List (String × Nat) :=
  [("CRITICAL", 50), ("FATAL", 50), ("ERROR", 40), ("WARN", 30), ("WARNING", 30), ("INFO", 20),
   ("DEBUG", 10), ("NOTSET", 0)]

/-- The upper-case form of a letter that a level's name may hold.  Besides the small ASCII letters,
the dotless i and the long s have such a form. -/
def upperLetter (c : Char) : Char :=
  if c = 'ı' then 'I' else if c = 'ſ' then 'S' else c.toUpper

/-- The level that a text names. -/
def levelOf (text : String) : Nat :=
  (levels.lookup ((Text.trim text).map upperLetter)).getD defaultLevel

/-- The variable that sets the level. -/
def levelVariable : String := "THETA_LOG_LEVEL"

/-- The level that the environment asks for. -/
def logLevel (env : Environment) : Nat :=
  match env.lookup levelVariable with
  | some text => levelOf text
  | none => defaultLevel

/-! ## Depth -/

/-- The variable that sets the depth. -/
def depthVariable : String := "THETA_RECURSION_LIMIT"

/-- The depth where none is asked for. -/
def defaultDepth : Int := 10000

/-- The greatest depth that can be set. -/
def maxDepth : Int := 2147483647

/-- A depth that is no numeral. -/
structure DepthError where
  text : String
deriving DecidableEq, Repr

/-- The error in words. -/
def DepthError.message (e : DepthError) : String :=
  depthVariable ++ " must be an integer, got " ++ Text.quoted e.text

/-- The depth that a text asks for. -/
def depthOf (text : String) : Except DepthError Int :=
  let trimmed := Text.trim text
  if trimmed = "" then .ok defaultDepth
  else match Text.signed? trimmed.toList with
    | some n => .ok n
    | none => .error ⟨text⟩

/-- The depth that the environment asks for. -/
def depth (env : Environment) : Except DepthError Int :=
  match env.lookup depthVariable with
  | some text => depthOf text
  | none => .ok defaultDepth

end Settings

end MiniLisp
