import SicXe.CommandLine.Card
import SicXe.CommandLine.Host
import SicXe.CommandLine.Invocation
import SicXe.Session

/-!
# Running a command line

A command line is read, its instruction table is loaded, and then the reference card or the command
follows. The result is the exit code: zero for success, one for a failure and two for a wrong
command line. Nothing is written before the whole assembly is known. The commands are those of
`SPEC_FULL.md` §10.5.
-/

namespace SicXe.CommandLine

/-- The formats of an object file. -/
inductive Format where
  /-- A record on each line. -/
  | text
  /-- One document with listing, symbols and records. -/
  | json
  deriving DecidableEq, Repr

namespace Format

/-- The format with a name. -/
def ofName? : String → Option Format
  | "text" => some text
  | "json" => some json
  | _ => none

/-- The extension of an object file. -/
def extension : Format → String
  | text => "obj"
  | json => "json"

/-- What an object file holds. -/
def contents : Format → Assembly → String
  | text, assembly => assembly.objectText ++ "\n"
  | json, assembly => assembly.document.render

end Format

/-- Why a command fails. -/
inductive Failure where
  /-- A file cannot be used. -/
  | file (error : FileError)
  /-- The instruction table or the source is refused. -/
  | refused (error : Error)
  /-- The format is not known. -/
  | format (name : String)
  /-- No command is given. -/
  | noCommand
  deriving DecidableEq, Repr

namespace Failure

/-- The wording of a failure. -/
def render : Failure → String
  | file error => "Error: " ++ error.render ++ "\n"
  | refused error => error.diagnostic.render ++ "\n"
  | format name => "Unknown format: " ++ name ++ "\n"
  | noCommand => "Error: \"No command provided. Use --help for usage information.\"\n"

end Failure

/-- A session with the table that rows of text form, or with the standard one. -/
def sessionOf (text : Option String) : Except Failure Session :=
  match text with
  | none => .ok (.start {})
  | some text =>
    match (Session.start {}).setTableText text with
    | (.error e, _) => .error (.refused e)
    | (.ok (), session) => .ok session

/-- The object file of a request: the assembly, the session after it, the path and the contents. -/
structure Product where
  /-- What was assembled. -/
  assembly : Assembly
  /-- The session after assembling. -/
  session : Session
  /-- The path of the object file. -/
  path : String
  /-- What the object file holds. -/
  contents : String
  deriving DecidableEq, Repr

/-- The product of a request from the text of its source. An object file without a path of its own
lies beside the source. -/
def product (session : Session) (request : AssembleRequest) (source : String) :
    Except Failure Product :=
  match session.assemble source with
  | (.error e, _) => .error (.refused e)
  | (.ok assembly, after) =>
    match Format.ofName? request.format with
    | none => .error (.format request.format)
    | some format =>
      .ok
        { assembly
          session := after
          path := request.output.getD (Path.withExtension request.input format.extension)
          contents := format.contents assembly }

/-- The size of the program of a session. -/
def lengthLine (session : Session) : String :=
  "  Program length: " ++ Text.hex 6 session.layout.programLength

/-- What is said about a product. -/
def productReport (product : Product) (symbols : Bool) : String :=
  textLines
    (["  Records: " ++ toString product.assembly.records.length,
      "  Labels: " ++ toString product.assembly.symbols.length,
      lengthLine product.session] ++
    if symbols then
      "" :: "Symbol table:" ::
        product.session.symbols.entries.map fun entry ↦ "  " ++ entry.render
    else [])

/-- What is said about a source without errors. -/
def validReport (input : String) (assembly : Assembly) (session : Session) : String :=
  textLines
    ["✓ " ++ input ++ " is valid",
      "  Intermediate lines: " ++ toString assembly.listing.length,
      "  Labels: " ++ toString assembly.symbols.length,
      lengthLine session]

section

variable {m : Type → Type} [Monad m]

/-- A failure is reported, and the command ends with exit code one. -/
def fail (host : Host m) (failure : Failure) : m UInt32 := do
  host.err failure.render
  return 1

/-- The listing of a product is written, if a path is given for it. -/
def writeListing (host : Host m) (path : Option String) (assembly : Assembly) :
    m (Except FileError Unit) := do
  match path with
  | none => return .ok ()
  | some path =>
    match ← host.write path (assembly.listingText ++ "\n") with
    | .error e => return .error e
    | .ok () =>
      host.out ("✓ Intermediate listing written to " ++ path ++ "\n")
      return .ok ()

/-- A product is written and reported. -/
def deliver (host : Host m) (request : AssembleRequest) (product : Product) : m UInt32 := do
  match ← host.write product.path product.contents with
  | .error e => fail host (.file e)
  | .ok () =>
    host.out ("✓ Assembled to " ++ product.path ++ "\n")
    match ← writeListing host request.intermediate product.assembly with
    | .error e => fail host (.file e)
    | .ok () =>
      host.out (productReport product request.symbols)
      return 0

/-- The command that writes an object file. -/
def runAssemble (host : Host m) (session : Session) (request : AssembleRequest) : m UInt32 := do
  match ← host.read request.input with
  | .error e => fail host (.file e)
  | .ok source =>
    match product session request source with
    | .error failure => fail host failure
    | .ok product => deliver host request product

/-- The command that looks for errors in a source. -/
def runCheck (host : Host m) (session : Session) (input : String) : m UInt32 := do
  match ← host.read input with
  | .error e => fail host (.file e)
  | .ok source =>
    match session.assemble source with
    | (.error e, _) =>
      host.err ("✗ " ++ input ++ " has errors:\n")
      fail host (.refused e)
    | (.ok assembly, after) =>
      host.out (validReport input assembly after)
      return 0

/-- The text of an instruction table, if a path is given for one. -/
def readTable (host : Host m) (path : Option String) : m (Except FileError (Option String)) := do
  match path with
  | none => return .ok none
  | some path => return (← host.read path).map some

/-- The reference card or the command of an invocation, with its instruction table. -/
def perform (host : Host m) (invocation : Invocation) : m UInt32 := do
  match ← readTable host invocation.table with
  | .error e => fail host (.file e)
  | .ok text =>
    match sessionOf text with
    | .error failure => fail host failure
    | .ok session =>
      if invocation.reference then
        host.out (referenceCard session.table)
        return 0
      else
        match invocation.command with
        | none => fail host .noCommand
        | some (.assemble request) => runAssemble host session request
        | some (.check input) => runCheck host session input

/-- The exit code of a command line on a host. -/
def run (host : Host m) (words : List String) : m UInt32 := do
  match Invocation.parse words with
  | .error .usage =>
    host.err usageText
    return 2
  | .error .version =>
    host.out versionText
    return 0
  | .error (.help level) =>
    host.out (helpText level)
    return 0
  | .ok invocation => perform host invocation

end

/-- The exit code of a command line in a world, and the world after it. -/
def runIn (world : World) (words : List String) : UInt32 × World :=
  (run World.host words).run world

end SicXe.CommandLine
