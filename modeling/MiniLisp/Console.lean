/-
# MiniLisp.Console — what a program has read and written.

Output only grows, a line at a time.  Input is the text not read yet.  A line ends at a line feed or
at the end of the text; carriage returns at its end do not count.

A console holds texts and no devices.  What a program writes is kept in memory, or it goes to a
stream that is flushed with every line; what it reads is a text in memory, or the standard input.
Either way a line is out as a whole before anything else happens, and a read takes the next line of
the text that is left, so one type stands for both.  They differ in what a host can ask for
afterwards, which is `Console.kept`, and in the line ends of the input: of the standard input they
are unified before the text gets here, and a text in memory is taken as it is.  Input that cannot be
decoded and output that cannot be encoded are no texts, and are not dealt with here.
-/

namespace MiniLisp

/-- Where a program's output goes. -/
inductive Sink where
  /-- It stays in memory. -/
  | memory
  /-- It is passed on with every line. -/
  | stream

/-- The two ends of a program's conversation. -/
structure Console where
  /-- The text not read yet. -/
  input : List Char := []
  /-- The text written so far. -/
  output : String := ""

namespace Console

/-- A console with a text to read. -/
def ofInput (text : String) : Console where
  input := text.toList

/-- Writes a line. -/
def writeLine (c : Console) (text : String) : Console :=
  { c with output := c.output ++ text ++ "\n" }

/-- The text without the carriage returns at its end. -/
def chomp (line : List Char) : List Char := (line.reverse.dropWhile (· = '\r')).reverse

/-- The output that a host can ask for: of what was passed on nothing is kept. -/
def kept (c : Console) : Sink → String
  | .memory => c.output
  | .stream => ""

/-- Reads a line; `none` when everything has been read. -/
def readLine? (c : Console) : Option (String × Console) :=
  if c.input.isEmpty then none
  else
    let line := c.input.takeWhile (· ≠ '\n')
    let rest := (c.input.dropWhile (· ≠ '\n')).drop 1
    some (String.ofList (chomp line), { c with input := rest })

end Console

end MiniLisp
