import SicXe.Listing
import SicXe.Record
import SicXe.SymbolTable
import SicXe.Text.Json

/-!
# Assemblies

An assembly is all that one successful run produces: the listing, the symbols and the object
program. It is written as text or as one JSON document (`SPEC_FULL.md` §§10.5/10.6).
-/

namespace SicXe

open Text (Json)

/-- What a successful run produces. -/
structure Assembly where
  /-- The listing. -/
  listing : List Listing.Line
  /-- The defined labels. -/
  symbols : List Symbol
  /-- The object program. -/
  records : List Record
  deriving DecidableEq, Repr

namespace Listing

/-- The document of an operand: its form and, if there is one, its value. -/
def Operand.document : Operand → Json
  | none => .object [("form", .string "None")]
  | registers first second =>
    .object [("form", .string "Registers"), ("value", .array [.string first, .string second])]
  | byte value => .object [("form", .string "Byte"), ("value", .number value.toNat)]
  | address value => .object [("form", .string "Address"), ("value", .number value)]
  | symbol name => .object [("form", .string "Symbol"), ("value", .string name)]

/-- The type of a content and the fields that follow the address. -/
def Content.document : Content → String × List (String × Json)
  | word value => ("Word", [("value", .number value)])
  | byte value => ("ByteValue", [("value", .number value.toNat)])
  | literal token => ("ByteLiteral", [("literal", .string token)])
  | reserveWords count => ("Resw", [("count", .number count.toNat)])
  | reserveBytes count => ("Resb", [("count", .number count.toNat)])
  | instruction code operand =>
    ("Instruction", [("opcode_byte", .number code.toNat), ("operands", operand.document)])

/-- The document of a listing line. -/
def Line.document : Line → Json
  | start label address =>
    .object [("type", .string "Start"), ("label", .string label), ("address", .number address)]
  | body address content =>
    .object (("type", .string content.document.1) :: ("address", .number address) ::
      content.document.2)

end Listing

/-- The document of a symbol. -/
def Symbol.document (s : Symbol) : Json :=
  .object [("name", .string s.name), ("address", .number s.address)]

/-- The document of an object record. -/
def Record.document : Record → Json
  | header name start length =>
    .object [("type", .string "Header"), ("name", .string name), ("start", .number start),
      ("length", .number length)]
  | text label length payload =>
    .object [("type", .string "Text"), ("label", .string label), ("length", .number length),
      ("payload", .string payload)]
  | reserve label length =>
    .object [("type", .string "Reserve"), ("label", .string label), ("length", .number length)]
  | finish address => .object [("type", .string "End"), ("address", .number address)]

namespace Assembly

/-- The listing as text. -/
def listingText (assembly : Assembly) : String :=
  Listing.render assembly.listing

/-- The object program as text, a record on each line. -/
def objectText (assembly : Assembly) : String :=
  Text.joinLines (assembly.records.map Record.render)

/-- The document of an assembly. -/
def document (assembly : Assembly) : Json :=
  .object
    [("intermediate", .array (assembly.listing.map Listing.Line.document)),
      ("symbols", .array (assembly.symbols.map Symbol.document)),
      ("records", .array (assembly.records.map Record.document))]

end Assembly

end SicXe
