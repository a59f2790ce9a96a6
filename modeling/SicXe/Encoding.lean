import SicXe.Layout
import SicXe.Listing.Entry
import SicXe.Literal
import SicXe.Record
import SicXe.SymbolTable
import SicXe.Text.Lines

/-!
# Encoding a listing

Encoding turns the token lines of a listing into object records. The first line gives the header;
each further line gives one record on its own, with labels looked up in the symbol table; the
entry address is checked last. The first line that is refused decides the error. The rules are those
of the pass 2 engine of `SPEC_FULL.md` §4.5, with the details of §§10.2/10.8.
-/

namespace SicXe.Encoding

open Listing (Entry)

/-- The first operand of an entry, which must have one. -/
def required : Operands → Except Fault String
  | .none => .error .missingOperand
  | .one operand | .two operand _ => .ok operand

/-- The length field of a record is a word of 32 bits; what exceeds it is cut off. -/
def lengthField (length : Nat) : Nat :=
  length % UInt32.size

/-- The byte of one or two hexadecimal digits. -/
def hexByte? (token : String) : Option Nat :=
  if token.toList.length ≤ 2 && token.toList.all Text.isHexDigit then
    Text.readHexBelow? 256 token
  else none

/-- The length and the hexadecimal digits of a byte operand (`BYTE` of `SPEC_FULL.md` §4.5). -/
def byteString (operand : String) : Except Fault (Nat × String) :=
  match hexByte? operand with
  | some value => .ok (1, Text.hex 2 value)
  | none =>
    match Literal.characters? operand with
    | some cs =>
      .ok (lengthField cs.length,
        String.ofList (cs.flatMap fun c ↦ (Text.hex 2 c.toNat).toList))
    | none =>
      match Literal.digits? operand with
      | some ds => .ok (lengthField ds.length, String.ofList ds)
      | none => .error (.operand .notByteString)

/-- The count of a reserving directive: a byte above zero in hexadecimal (`SPEC_FULL.md` §10.2). -/
def reserveCount (operand : String) : Except Fault Nat :=
  match Text.readHexBelow? 256 operand with
  | none | some 0 => .error (.operand .reserveCount)
  | some n => .ok n

/-- The record of a storage directive. -/
def storageRecord (slot : String) (kind : Storage) (operand : String) : Except Fault Record :=
  match kind with
  | .word => .ok (.text slot 3 operand)
  | .byte => (byteString operand).map fun (length, payload) ↦ .text slot length payload
  | .reserveWords => (reserveCount operand).map fun n ↦ .reserve slot (n * 3)
  | .reserveBytes => (reserveCount operand).map fun n ↦ .reserve slot n

/-- The length and the text of an instruction without a label operand. -/
def immediate (code : String) : Operands → Except Fault (Nat × String)
  | .none => .ok (1, code)
  | .one operand => .ok (lengthField (Text.byteLength operand / 2), code ++ operand)
  | .two a b =>
    match Register.number? a, Register.number? b with
    | some m, some n => .ok (2, code ++ Text.hex 1 m ++ Text.hex 1 n)
    | _, _ => .error (.operand .notRegisters)

/-- The length and the text of an instruction whose operand is a label. -/
def direct (symbols : SymbolTable) (code : String) (operands : Operands) :
    Except Fault (Nat × String) :=
  match required operands with
  | .error fault => .error fault
  | .ok name =>
    match symbols.find? name with
    | none => .error .undefinedSymbol
    | some entry => .ok (4, code ++ Text.hex 6 entry.address)

/-- The length and the text of an instruction; the two low bits of its code byte are the
addressing mode (`SPEC_FULL.md` §4.5). -/
def instructionText (symbols : SymbolTable) (code : String) (operands : Operands) :
    Except Fault (Nat × String) :=
  match Text.readHexBelow? 256 code with
  | none => .error .unknownCode
  | some byte =>
    match byte % 4 with
    | 0 => immediate code operands
    | 1 => direct symbols code operands
    | _ => .error .unknownMode

/-- The record of an entry. -/
def entryRecord (symbols : SymbolTable) (entry : Entry) : Except Fault Record :=
  match Directive.ofToken? entry.code with
  | some (.storage kind) => (required entry.operands).bind (storageRecord entry.slot kind)
  | _ =>
    (instructionText symbols entry.code entry.operands).map
      fun (length, payload) ↦ .text entry.slot length payload

/-- The record of a token line. -/
def lineRecord (symbols : SymbolTable) (tokens : List String) : Except Error Record :=
  atLine (Token.join tokens) ((Entry.parse tokens).bind (entryRecord symbols))

/-- The header of a program whose listing opens with these tokens. -/
def headerRecord (layout : Layout) (tokens : List String) : Except Error Record :=
  (atLine (Token.join tokens) (Entry.parse tokens)).map fun entry ↦
    .header entry.slot layout.startAddress layout.programLength

/-- The end record of a program whose entry address lies inside it. -/
def endRecord (layout : Layout) : Except Error Record :=
  if layout.entryInside then .ok (.finish layout.entryAddress)
  else .error { fault := .entryOutside layout.entryAddress, line := "" }

/-- The object program of a listing: `secondPass` of `SPEC_FULL.md` §§4.5/6. -/
def run (symbols : SymbolTable) (layout : Layout) :
    List (List String) → Except Error (List Record)
  | [] => .error { fault := .emptyProgram, line := "" }
  | first :: rest =>
    match headerRecord layout first with
    | .error e => .error e
    | .ok header =>
      match collect (lineRecord symbols) rest with
      | .error e => .error e
      | .ok body => (endRecord layout).map fun last ↦ header :: body ++ [last]

end SicXe.Encoding
