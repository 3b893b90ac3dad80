/-
# MiniLisp.Command.Files — paths, and a directory to follow them in.

A path is written in its plain form: without empty parts and parts that stay where they are.  Parts
that go up are kept, since where they lead is for the directory to say.  The working directory of a
run can be a tree of entries in memory; above it there is nothing to be found.
-/

namespace MiniLisp.Command

/-! ## Paths -/

/-- A path in its plain form. -/
structure Path where
  /-- The slashes it begins with: none for a path from the working directory. -/
  root : String
  parts : List String
deriving DecidableEq, Repr

namespace Path

/-- The parts of a text between its slashes. -/
def split (text : List Char) : List String :=
  (text.splitOnP (· = '/')).map String.ofList

/-- The slashes that a path keeps in front: two where there are exactly two, else at most one. -/
def rootOf : List Char → String
  | '/' :: '/' :: '/' :: _ => "/"
  | '/' :: '/' :: _ => "//"
  | '/' :: _ => "/"
  | _ => ""

/-- The path that a text spells. -/
def ofString (text : String) : Path where
  root := rootOf text.toList
  parts := (split text.toList).filter fun part => part ≠ "" && part ≠ "."

/-- The plain spelling of a path; the working directory is a dot. -/
def toString (p : Path) : String :=
  if p.root = "" && p.parts.isEmpty then "." else p.root ++ "/".intercalate p.parts

end Path

/-! ## Directories -/

/-- Why a file cannot be read. -/
inductive FileFault where
  | notFound
  | isDirectory
  | notDirectory
  | nameTooLong
  | other (reason : String)
deriving DecidableEq, Repr

/-- The fault in words. -/
def FileFault.reason : FileFault → String
  | .notFound => "No such file or directory"
  | .isDirectory => "Is a directory"
  | .notDirectory => "Not a directory"
  | .nameTooLong => "File name too long"
  | .other reason => reason

/-- A file or a directory in memory. -/
inductive Entry where
  | file (bytes : ByteArray)
  | directory (entries : List (String × Entry))

namespace Entry

/-- What a directory lists under a name. -/
def child? (name : String) : List (String × Entry) → Option Entry
  | [] => none
  | (x, e) :: rest => if x = name then some e else child? name rest

/-- The entries with `e` under `name`, in place of what was there. -/
def put (name : String) (e : Entry) (entries : List (String × Entry)) : List (String × Entry) :=
  (name, e) :: entries.filter (·.1 ≠ name)

/-- The entries with a file at the end of a path, and directories on the way to it. -/
def addFile (bytes : ByteArray) : (path : List String) → List (String × Entry) →
    List (String × Entry)
  | [], entries => entries
  | [name], entries => put name (.file bytes) entries
  | name :: rest, entries =>
    let inner := match child? name entries with
      | some (.directory inner) => inner
      | _ => []
    put name (.directory (addFile bytes rest inner)) entries

/-- The longest name of a file, in bytes. -/
def maxName : Nat := 255

/-- The longest path, in bytes. -/
def maxPath : Nat := 4095

/-- Follows the parts of a path from an entry; `above` are the directories it lies in, innermost
first, as far as they are known. -/
def follow (above : List Entry) (here : Entry) : List String → Except FileFault ByteArray
  | [] =>
    match here with
    | .file bytes => .ok bytes
    | .directory _ => .error .isDirectory
  | part :: parts =>
    match here with
    | .file _ => .error .notDirectory
    | .directory entries =>
      if part = ".." then
        match above with
        | [] => follow [] (.directory []) parts
        | outer :: above => follow above outer parts
      else if part.utf8ByteSize > maxName then .error .nameTooLong
      else match child? part entries with
        | none => .error .notFound
        | some e => follow (here :: above) e parts

/-- The bytes of the file at a path from a directory.  A path from the root finds nothing. -/
def read (entries : List (String × Entry)) (p : Path) : Except FileFault ByteArray :=
  if p.toString.utf8ByteSize > maxPath then .error .nameTooLong
  else if p.root = "" then follow [] (.directory entries) p.parts
  else follow [] (.directory []) p.parts

end Entry

end MiniLisp.Command
