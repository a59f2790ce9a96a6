import SicXe.CommandLine.Switch
import SicXe.Directive
import SicXe.OpTable

/-!
# Printed cards

The texts that the program prints on request: the reference card of an instruction table
(`SPEC_FULL.md` §10.5), the version, and the help on each level of the command line, which is made
from what the levels and the switches say about themselves.
-/

namespace SicXe.CommandLine

/-- A text filled up with spaces to a width. -/
def padded (width : Nat) (s : String) : String :=
  String.ofList (s.toList ++ List.replicate (width - s.toList.length) ' ')

/-- Texts, each ended by a line feed. -/
def textLines (lines : List String) : String :=
  String.join (lines.map fun line ↦ line ++ "\n")

/-- A row of the reference card. -/
def cardRow (name code length : String) : String :=
  padded 10 name ++ " " ++ padded 6 code ++ " " ++ length

/-- The row of an instruction on the reference card. -/
def definitionRow (d : Definition) : String :=
  cardRow d.name (Text.hex 2 d.opcode.toNat) (toString d.width.bytes)

/-- How a directive is used. -/
def directiveUsage : Directive → String
  | .start => "label START addr   # Program start (decimal address)"
  | .finish => "END [addr]         # Program end, optional entry point"
  | .storage .word => "WORD n             # 3-byte value (1-16777215)"
  | .storage .byte => "BYTE n|C\"..\"|X\"..\" # Byte value or string"
  | .storage .reserveBytes => "RESB n             # Reserve n bytes (1-255)"
  | .storage .reserveWords => "RESW n             # Reserve n words (1-255)"

/-- The reference card of an instruction table. -/
def referenceCard (table : OpTable) : String :=
  textLines
    (["SIC/XE ASSEMBLER REFERENCE",
      "==========================",
      "",
      "INSTRUCTIONS",
      "------------",
      cardRow "NAME" "CODE" "LENGTH"] ++
    table.definitions.map definitionRow ++
    ["",
      "DIRECTIVES",
      "----------"] ++
    Directive.all.map directiveUsage ++
    ["",
      "OPERANDS",
      "--------",
      "R1..R16              # Registers (length-2 instructions)",
      "0..255               # Byte value (length-2 instructions)",
      "label | 0..16777215  # Address (length-4 instructions)"])

/-- The name of the program and its version. -/
def versionText : String := "sicasm 0.1.0\n"

/-- What is said about a wrong command line. -/
def usageText : String :=
  "error: wrong arguments\n\nFor more information, try '--help'.\n"

/-- A switch as the help shows it, with the name of its value in upper case. -/
def switchUsage (switch : Switch) : String :=
  (match switch.letter? with
    | some letter => String.ofList ['-', letter, ',', ' ']
    | none => "    ") ++
  "--" ++ switch.name ++
  if switch.takesValue then " <" ++ Text.uppercase switch.name ++ ">" else ""

/-- How a level is written after the name of the program. -/
def levelUsage (level : Level) : String :=
  Token.join
    (["Usage: sicasm"] ++ level.name?.toList ++
      (if level.switches.isEmpty then [] else ["[OPTIONS]"]) ++
      level.arguments.map Prod.fst ++
      if level.commands.isEmpty then [] else ["[COMMAND]"])

/-- A part of a help text: a title and rows whose second column begins right of the first one. A
part without rows is left out. -/
def helpPart (title : String) (rows : List (String × String)) : List String :=
  let width := (rows.map fun row ↦ row.1.toList.length).foldl max 0
  if rows.isEmpty then []
  else ["", title ++ ":"] ++ rows.map fun row ↦ "  " ++ padded width row.1 ++ "  " ++ row.2

/-- The help on a level. -/
def helpText (level : Level) : String :=
  textLines
    ([level.about, "", levelUsage level] ++
      helpPart "Commands" (level.commands.map fun command ↦
        (command.name?.getD "", command.about)) ++
      helpPart "Arguments" level.arguments ++
      helpPart "Options" (level.switches.map fun switch ↦ (switchUsage switch, switch.about)))

end SicXe.CommandLine
