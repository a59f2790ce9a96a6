import SicXe.Fault
import SicXe.Text.Numeral
import SicXe.Token

/-!
# Instruction definitions

An instruction has a name, a six-bit opcode and a width. Definitions come typed or as text rows
`<name> <code> <length>` with hexadecimal fields; both are checked against the same rules, name
before code before length (`SPEC_FULL.md` §§3/10.4).
-/

namespace SicXe

/-- The widths of the instruction formats, in bytes. -/
inductive Width where
  | one
  | two
  | four
  deriving DecidableEq, Repr

namespace Width

/-- The number of bytes of a width. -/
def bytes : Width → Nat
  | one => 1
  | two => 2
  | four => 4

/-- The width of a number of bytes. -/
def ofBytes? : Nat → Option Width
  | 1 => some one
  | 2 => some two
  | 4 => some four
  | _ => none

/-- A width is recovered from its number of bytes. -/
@[simp] theorem ofBytes?_bytes (w : Width) : ofBytes? w.bytes = some w := by
  cases w <;> rfl

end Width

/-- An instruction: its name, its opcode and its width. -/
structure Definition where
  /-- The mnemonic. -/
  name : String
  /-- The number that identifies the instruction. -/
  opcode : UInt8
  /-- The size of the encoded instruction. -/
  width : Width
  deriving DecidableEq, Repr

/-- The textual fields of an instruction definition, not yet checked. -/
structure Row where
  /-- The mnemonic. -/
  name : String
  /-- The opcode in hexadecimal. -/
  code : String
  /-- The width in hexadecimal. -/
  length : String
  deriving DecidableEq, Repr

/-- The greatest opcode: two of the eight bits of a code byte hold the addressing mode. -/
def maxOpcode : Nat := 63

/-- What is wrong with an instruction name: it is a Latin letter followed by Latin letters and
digits. -/
def nameFault? (name : String) : Option DefinitionFault :=
  match name.toList with
  | [] => some .emptyName
  | c :: cs =>
    if !c.isAlpha then some .nameStart
    else if !cs.all Char.isAlphanum then some .nameCharacter
    else none

namespace Definition

/-- The code byte: the opcode in the upper six bits and addressing mode zero. -/
def codeByte (d : Definition) : UInt8 :=
  d.opcode * 4

/-- A definition as a row of text. -/
def render (d : Definition) : String :=
  d.name ++ " " ++ Text.hex 2 d.opcode.toNat ++ " " ++ toString d.width.bytes

/-- What is wrong with a definition on its own. -/
def fault? (d : Definition) : Option DefinitionFault :=
  match nameFault? d.name with
  | some fault => some fault
  | none => if maxOpcode < d.opcode.toNat then some .codeRange else none

/-- A definition that is right on its own, or the error that names it. -/
def check (d : Definition) : Except Error Definition :=
  match d.fault? with
  | some fault => .error { fault := .definition fault, line := d.render }
  | none => .ok d

end Definition

namespace Row

/-- A row as it was written. -/
def render (row : Row) : String :=
  row.name ++ " " ++ row.code ++ " " ++ row.length

/-- The definition that the fields of a row denote. -/
def definition (row : Row) : Except DefinitionFault Definition :=
  match nameFault? row.name with
  | some fault => .error fault
  | none =>
    match Text.readHexBelow? 4294967296 row.code with
    | none => .error .codeNotHex
    | some code =>
      if maxOpcode < code then .error .codeRange
      else
        match Text.readHexBelow? 4294967296 row.length with
        | none => .error .lengthNotHex
        | some length =>
          match Width.ofBytes? length with
          | none => .error .lengthValue
          | some width => .ok { name := row.name, opcode := UInt8.ofNat code, width }

/-- The definition of a row, or the error that names the row. -/
def read (row : Row) : Except Error Definition :=
  match row.definition with
  | .error fault => .error { fault := .definition fault, line := row.render }
  | .ok d => .ok d

/-- The row that three tokens form. -/
def ofTokens : List String → Except Error Row
  | [name, code, length] => .ok ⟨name, code, length⟩
  | tokens => .error { fault := .malformedRow, line := Token.join tokens }

end Row

/-- The rows of a table text, one on each line that has tokens. -/
def Row.ofText (text : String) : Except Error (List Row) :=
  collect Row.ofTokens (Token.ofText text)

end SicXe
