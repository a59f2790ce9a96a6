/-!
# Switches of the command line

A command line has a level for the program itself and one for each command (`SPEC_FULL.md` §10.5);
the command `help` has no switches. A switch has a long name, sometimes a letter, and sometimes a
value. Levels and switches carry what the help says about them.
-/

namespace SicXe.CommandLine

/-- The levels of a command line. -/
inductive Level where
  /-- Before any command. -/
  | program
  /-- After the command that writes an object file. -/
  | assemble
  /-- After the command that only looks for errors. -/
  | check
  /-- The command that prints a help text. -/
  | help
  deriving DecidableEq, Repr

/-- The switches of a command line. -/
inductive Switch where
  /-- Print the reference card. -/
  | reference
  /-- Use an instruction table from a file. -/
  | table
  /-- Say more. -/
  | verbose
  /-- Print the version. -/
  | version
  /-- Print a help text. -/
  | help
  /-- Write the object file under this path. -/
  | output
  /-- Write the object file in this format. -/
  | format
  /-- Write the listing under this path. -/
  | intermediate
  /-- Print the symbol table. -/
  | symbols
  deriving DecidableEq, Repr

namespace Switch

/-- The name of a switch after two dashes. -/
def name : Switch → String
  | reference => "reference"
  | table => "table"
  | verbose => "verbose"
  | version => "version"
  | help => "help"
  | output => "output"
  | format => "format"
  | intermediate => "intermediate"
  | symbols => "symbols"

/-- The letter of a switch after one dash. -/
def letter? : Switch → Option Char
  | reference => some 'r'
  | table => some 't'
  | verbose => some 'v'
  | version => some 'V'
  | help => some 'h'
  | output => some 'o'
  | format => some 'f'
  | intermediate => none
  | symbols => none

/-- The switches that are followed by a value. -/
def takesValue : Switch → Bool
  | table | output | format | intermediate => true
  | reference | verbose | version | help | symbols => false

/-- The switches whose value is a path and so must not be empty. -/
def takesPath : Switch → Bool
  | table | output | intermediate => true
  | reference | verbose | version | help | format | symbols => false

/-- What a switch does, as the help says it. -/
def about : Switch → String
  | reference => "Show instruction and directive reference"
  | table => "Instruction table file (`NAME CODE LENGTH` per line, hex values)"
  | verbose => "Verbose output"
  | version => "Print version"
  | help => "Print help"
  | output => "Output object file (defaults to <input>.obj or <input>.json)"
  | format => "Output format (text, json) [default: text]"
  | intermediate => "Also write the first-pass listing to this file"
  | symbols => "Print the symbol table"

end Switch

namespace Level

/-- The switches of a level, in the order of its help. -/
def switches : Level → List Switch
  | program => [.reference, .table, .verbose, .help, .version]
  | assemble => [.output, .format, .table, .intermediate, .verbose, .symbols, .help]
  | check => [.table, .verbose, .help]
  | help => []

/-- The word for a command. -/
def name? : Level → Option String
  | program => none
  | assemble => some "assemble"
  | check => some "check"
  | help => some "help"

/-- What a level does, as the help says it. -/
def about : Level → String
  | program => "SIC/XE two-pass assembler"
  | assemble => "Assemble a source file into object records"
  | check => "Validate an assembly file"
  | help => "Print this message or the help of the given subcommand(s)"

/-- The words that a level takes besides switches, and what they are. -/
def arguments : Level → List (String × String)
  | program => []
  | assemble | check => [("<INPUT>", "Input assembly file")]
  | help => [("[COMMAND]...", "Print help for the subcommand(s)")]

/-- The commands after a level. -/
def commands : Level → List Level
  | program => [assemble, check, help]
  | assemble | check | help => []

/-- The command of the program that a word stands for. -/
def ofName? (word : String) : Option Level :=
  program.commands.find? fun level ↦ level.name? == some word

/-- The switch with a long name. -/
def named? (level : Level) (name : String) : Option Switch :=
  level.switches.find? fun switch ↦ switch.name == name

/-- The switch with a letter. -/
def lettered? (level : Level) (letter : Char) : Option Switch :=
  level.switches.find? fun switch ↦ switch.letter? == some letter

end Level

end SicXe.CommandLine
