import SicXe.CommandLine.Switch

/-!
# Reading a command line

The words of a command line are read from left to right. A switch may stand anywhere on its level
and at most once; its value follows in the same word or in the next one. The word `--` ends the
switches of a level. Reading stops at the first word that is wrong or that asks for the version or
for help.
-/

namespace SicXe.CommandLine

/-- What to assemble and how. -/
structure AssembleRequest where
  /-- The path of the source. -/
  input : String
  /-- The path of the object file. -/
  output : Option String
  /-- The name of the format of the object file. -/
  format : String
  /-- The path of the listing. -/
  intermediate : Option String
  /-- Whether the symbol table is printed. -/
  symbols : Bool
  deriving DecidableEq, Repr

/-- The commands. -/
inductive Command where
  /-- Write an object file. -/
  | assemble (request : AssembleRequest)
  /-- Look for errors in a source. -/
  | check (input : String)
  deriving DecidableEq, Repr

/-- A command line that has been read. -/
structure Invocation where
  /-- Whether the reference card is asked for. -/
  reference : Bool
  /-- The path of an instruction table. -/
  table : Option String
  /-- The command, if one is given. -/
  command : Option Command
  deriving DecidableEq, Repr

/-- Why reading a command line stops early. -/
inductive Stop where
  /-- The command line is wrong. -/
  | usage
  /-- The version is asked for. -/
  | version
  /-- Help on a level is asked for. -/
  | help (level : Level)
  deriving DecidableEq, Repr

/-- What has been read on a level. -/
structure Given where
  /-- The switches with their values; a switch without one has an empty value. -/
  switches : List (Switch × String) := []
  /-- The path that a command works on. -/
  input : Option String := none
  deriving DecidableEq, Repr

namespace Given

/-- The value of a switch. -/
def value? (given : Given) (switch : Switch) : Option String :=
  (given.switches.find? fun entry ↦ entry.1 == switch).map Prod.snd

/-- Whether a switch has been read. -/
def has (given : Given) (switch : Switch) : Bool :=
  (given.value? switch).isSome

/-- A switch is read with its value. -/
def addSwitch (level : Level) (given : Given) (switch : Switch) (value : String) :
    Except Stop Given :=
  if switch = .version then .error .version
  else if switch = .help then .error (.help level)
  else if given.has switch then .error .usage
  else if switch.takesPath ∧ value = "" then .error .usage
  else .ok { given with switches := given.switches ++ [(switch, value)] }

/-- A word that is no switch is read; only a command takes one, and only one. -/
def addWord (level : Level) (given : Given) (word : String) : Except Stop Given :=
  if level = .program ∨ given.input.isSome ∨ word = "" then .error .usage
  else .ok { given with input := some word }

end Given

/-- A word with a dash in front and something after it cannot be a value. -/
def looksLikeSwitch (word : String) : Bool :=
  match word.toList with
  | '-' :: _ :: _ => true
  | _ => false

/-- The letters after one dash: each is a switch, and the first one with a value takes the rest of
the word, or else the next word. -/
def readLetters (level : Level) : Given → List Char → Except Stop (Given × Option Switch)
  | given, [] => .ok (given, none)
  | given, c :: cs =>
    match level.lettered? c with
    | none => .error .usage
    | some switch =>
      if switch.takesValue then
        match cs with
        | [] => .ok (given, some switch)
        | '=' :: value =>
          (given.addSwitch level switch (String.ofList value)).map fun next ↦ (next, none)
        | value => (given.addSwitch level switch (String.ofList value)).map fun next ↦ (next, none)
      else
        match given.addSwitch level switch "" with
        | .error stop => .error stop
        | .ok next => readLetters level next cs

/-- The name after two dashes, with its value after an equals sign or else in the next word. -/
def readName (level : Level) (given : Given) (cs : List Char) :
    Except Stop (Given × Option Switch) :=
  match level.named? (String.ofList (cs.takeWhile (· != '='))) with
  | none => .error .usage
  | some switch =>
    match cs.dropWhile (· != '=') with
    | [] =>
      if switch.takesValue then .ok (given, some switch)
      else (given.addSwitch level switch "").map fun next ↦ (next, none)
    | _ :: value =>
      if switch.takesValue then
        (given.addSwitch level switch (String.ofList value)).map fun next ↦ (next, none)
      else .error .usage

/-- How the next word is to be read. -/
inductive Expecting where
  /-- A switch or a word. -/
  | any
  /-- The value of a switch. -/
  | value (switch : Switch)
  /-- A word, even if it begins with a dash. -/
  | word
  deriving DecidableEq, Repr

namespace Expecting

/-- What is expected after a switch that may still need its value. -/
def after : Option Switch → Expecting
  | none => any
  | some switch => value switch

end Expecting

/-- The level that help is asked for by the words after `help`; help on `help` itself is one. -/
def helpLevel : List String → Stop
  | [] => .help .program
  | [word] => ((Level.ofName? word).map Stop.help).getD .usage
  | _ => .usage

/-- The words of a level, and the command that ends it with the words after that. -/
def readWords (level : Level) :
    Given → Expecting → List String → Except Stop (Given × Option (Level × List String))
  | _, .value _, [] => .error .usage
  | given, _, [] => .ok (given, none)
  | given, .value switch, word :: rest =>
    if looksLikeSwitch word then .error .usage
    else
      match given.addSwitch level switch word with
      | .error stop => .error stop
      | .ok next => readWords level next .any rest
  | given, .word, word :: rest =>
    match given.addWord level word with
    | .error stop => .error stop
    | .ok next => readWords level next .word rest
  | given, .any, word :: rest =>
    match word.toList with
    | ['-', '-'] => readWords level given .word rest
    | '-' :: '-' :: cs =>
      match readName level given cs with
      | .error stop => .error stop
      | .ok (next, pending) => readWords level next (.after pending) rest
    | '-' :: c :: cs =>
      match readLetters level given (c :: cs) with
      | .error stop => .error stop
      | .ok (next, pending) => readWords level next (.after pending) rest
    | _ =>
      match level, Level.ofName? word with
      | .program, some .help => .error (helpLevel rest)
      | .program, some command => .ok (given, some (command, rest))
      | _, _ =>
        match given.addWord level word with
        | .error stop => .error stop
        | .ok next => readWords level next .any rest

/-- The command of a level with what was read on it. -/
def command? (level : Level) (given : Given) : Option Command :=
  match level, given.input with
  | .assemble, some input =>
    some (.assemble
      { input, output := given.value? .output, format := (given.value? .format).getD "text",
        intermediate := given.value? .intermediate, symbols := given.has .symbols })
  | .check, some input => some (.check input)
  | _, _ => none

/-- A command line is read; an instruction table after the command wins over one before it. -/
def Invocation.parse (words : List String) : Except Stop Invocation :=
  match readWords .program {} .any words with
  | .error stop => .error stop
  | .ok (top, none) =>
    .ok { reference := top.has .reference, table := top.value? .table, command := none }
  | .ok (top, some (level, rest)) =>
    match readWords level {} .any rest with
    | .error stop => .error stop
    | .ok (given, _) =>
      match command? level given with
      | none => .error .usage
      | some command =>
        .ok { reference := top.has .reference
              table := (given.value? .table).or (top.value? .table)
              command := some command }

end SicXe.CommandLine
