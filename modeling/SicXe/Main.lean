import SicXe.CommandLine.Run

/-!
# The program

The command line on the system that the program runs on.
-/

namespace SicXe.CommandLine

/-- The reason of a failed operation on a file. -/
def reasonOf : IO.Error → FileError
  | .noFileOrDirectory .. => .notFound
  | .permissionDenied .. => .permissionDenied
  | .inappropriateType _ code _ => if code = 21 then .isADirectory else .notADirectory
  | e => .other (toString e)

/-- The text of a file of the system. -/
def readText (path : String) : IO (Except FileError String) := do
  try
    match String.fromUTF8? (← IO.FS.readBinFile path) with
    | some text => return .ok text
    | none => return .error .notText
  catch e => return .error (reasonOf e)

/-- A file of the system gets a text. -/
def writeText (path text : String) : IO (Except FileError Unit) := do
  try
    IO.FS.writeFile path text
    return .ok ()
  catch e => return .error (reasonOf e)

/-- The host of the running program. -/
def systemHost : Host IO where
  read := readText
  write := writeText
  out text := IO.print text
  err text := IO.eprint text

end SicXe.CommandLine

/-- The program runs the command line that it is given. -/
def main (words : List String) : IO UInt32 :=
  SicXe.CommandLine.run SicXe.CommandLine.systemHost words
