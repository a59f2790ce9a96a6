import SicXe.Directive
import SicXe.Text.Lines
import SicXe.Text.Numeral
import SicXe.Token

/-!
# Listings

A listing is a program with an address on each line: the opening line and then one line for each
statement that occupies memory. Lines carry typed contents; as text, a line is its tokens joined
by single spaces. These are the intermediate lines of `SPEC_FULL.md` §3.
-/

namespace SicXe.Listing

/-- The operand of a placed instruction. -/
inductive Operand where
  /-- No operand. -/
  | none
  /-- Two registers, as written. -/
  | registers (first second : String)
  /-- A byte. -/
  | byte (value : UInt8)
  /-- An address. -/
  | address (value : Nat)
  /-- A label, as written, whose address is not yet known. -/
  | symbol (name : String)
  deriving DecidableEq, Repr

/-- What a line puts into memory. -/
inductive Content where
  /-- A word with a value. -/
  | word (value : Nat)
  /-- A byte with a value. -/
  | byte (value : UInt8)
  /-- The bytes of a literal, given by its token. -/
  | literal (token : String)
  /-- Words without a value. -/
  | reserveWords (count : UInt8)
  /-- Bytes without a value. -/
  | reserveBytes (count : UInt8)
  /-- An instruction with its code byte. -/
  | instruction (code : UInt8) (operand : Operand)
  deriving DecidableEq, Repr

/-- A line of a listing. -/
inductive Line where
  /-- The opening line with the name and the first address of the program. -/
  | start (label : String) (address : Nat)
  /-- A line that occupies memory from its address on. -/
  | body (address : Nat) (content : Content)
  deriving DecidableEq, Repr

namespace Operand

/-- The number of bytes of an instruction with this operand. -/
def size : Operand → Nat
  | none => 1
  | registers _ _ | byte _ => 2
  | address _ | symbol _ => 4

/-- The operand as tokens. -/
def tokens : Operand → List String
  | none => []
  | registers first second => [first, second]
  | byte value => [Text.hex 2 value.toNat]
  | address value => [Text.hex 6 value]
  | symbol name => [name]

end Operand

namespace Content

/-- The number of bytes that a line takes up; a literal has a letter and two quotes around its
characters, and each character or digit between them takes up a byte. -/
def size : Content → Nat
  | word _ => 3
  | byte _ => 1
  | literal token => Text.byteLength token - 3
  | reserveWords count => 3 * count.toNat
  | reserveBytes count => count.toNat
  | instruction _ operand => operand.size

/-- The content as tokens: a directive or a code byte, then its operands. -/
def tokens : Content → List String
  | word value => [Storage.word.name, Text.hex 6 value]
  | byte value => [Storage.byte.name, Text.hex 2 value.toNat]
  | literal token => [Storage.byte.name, token]
  | reserveWords count => [Storage.reserveWords.name, Text.hex 2 count.toNat]
  | reserveBytes count => [Storage.reserveBytes.name, Text.hex 2 count.toNat]
  | instruction code operand => Text.hex 2 code.toNat :: operand.tokens

end Content

namespace Line

/-- The address of a line; the opening line has the first address of the program. -/
def address : Line → Nat
  | start _ address => address
  | body address _ => address

/-- A line as tokens: the name of the program or an address, then the content. -/
def tokens : Line → List String
  | start label address => [label, Directive.start.name, Text.hex 6 address]
  | body address content => Text.hex 6 address :: content.tokens

/-- A line as text. -/
def render (line : Line) : String :=
  Token.join line.tokens

end Line

/-- A listing as text, a line each. -/
def render (lines : List Line) : String :=
  Text.joinLines (lines.map Line.render)

end SicXe.Listing
