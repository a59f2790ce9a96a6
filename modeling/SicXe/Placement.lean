import SicXe.Layout
import SicXe.Listing
import SicXe.Literal
import SicXe.Statement
import SicXe.SymbolTable

/-!
# Placing a program

Placing goes through the source once. It reads each token line as a statement, gives its label the
current address and puts its content at the location counter. It stops at the end directive and
ignores what follows, and it stops at the first fault. The labels defined so far are part of the
result in either case. The rules are those of the pass 1 engine of `SPEC_FULL.md` §4.4, in the order
of checks that §10.8 gives.
-/

namespace SicXe

namespace Operands

/-- The operand of a statement that has exactly one. -/
def single : Operands → Except Fault String
  | none => .error (.operandCount .noneForOne)
  | one operand => .ok operand
  | two _ _ => .error (.operandCount .twoForOne)

end Operands

namespace Placement

open Listing (Content Line Operand)

/-- A placed program: its listing and its layout. -/
structure Placed where
  /-- The lines of the listing, in order. -/
  lines : List Line
  /-- The layout after the last line. -/
  layout : Layout
  deriving DecidableEq, Repr

/-- A number, if it lies between two bounds. -/
def inRange? (low high : Nat) (value : Int) : Option Nat :=
  if Int.ofNat low ≤ value ∧ value ≤ Int.ofNat high then some value.toNat else none

/-- A decimal operand between two bounds. -/
def number (low high : Nat) (operand : String) : Except Fault Nat :=
  match Text.readDecimal? operand with
  | none => .error (.operand .notNumber)
  | some value =>
    match inRange? low high value with
    | none => .error (.operand (.outOfRange low high))
    | some n => .ok n

/-- The content of a byte directive: a number comes first, then a character literal, then a
hexadecimal literal, whose digits are put in upper case (`BYTE` of `SPEC_FULL.md` §4.4). -/
def byteContent (operand : String) : Except Fault Content :=
  match Text.readDecimal? operand with
  | some value =>
    match inRange? 0 255 value with
    | none => .error (.operand (.outOfRange 0 255))
    | some n => .ok (.byte (UInt8.ofNat n))
  | none =>
    if (Literal.characters? operand).isSome then .ok (.literal operand)
    else if (Literal.digits? operand).isSome then .ok (.literal (Text.uppercase operand))
    else .error (.operand .notByteOrLiteral)

/-- The content of a storage directive with its operand. -/
def storageContent (kind : Storage) (operand : String) : Except Fault Content :=
  match kind with
  | .word => (number 1 maxField operand).map .word
  | .byte => byteContent operand
  | .reserveWords => (number 1 255 operand).map fun n ↦ .reserveWords (UInt8.ofNat n)
  | .reserveBytes => (number 1 255 operand).map fun n ↦ .reserveBytes (UInt8.ofNat n)

/-- The address operand of an instruction: a label sets the low bit of the code byte. -/
def addressContent (g : Grammar) (code : UInt8) (operand : String) : Except Fault Content :=
  if g.isLabel operand then .ok (.instruction (code ||| 1) (.symbol operand))
  else
    match (Text.readDecimal? operand).bind (inRange? 0 maxField) with
    | some n => .ok (.instruction code (.address n))
    | none => .error (.operand .notAddress)

/-- The content of an instruction; its width decides which operands it takes (`SPEC_FULL.md` §4.4,
instruction semantics). -/
def instructionContent (g : Grammar) (d : Definition) (operands : Operands) :
    Except Fault Content :=
  match d.width, operands with
  | .one, .none => .ok (.instruction d.codeByte .none)
  | .one, _ => .error (.operandCount .someForNone)
  | .two, .none => .error (.operandCount .noneForSome)
  | .two, .two a b =>
    if Register.isName a && Register.isName b then
      .ok (.instruction d.codeByte (.registers a b))
    else .error (.operand .notRegisters)
  | .two, .one a => (number 0 255 a).map fun n ↦ .instruction d.codeByte (.byte (UInt8.ofNat n))
  | .four, operands => operands.single.bind (addressContent g d.codeByte)

/-- The address of the start directive. -/
def startAddress (limit : Nat) (operand : String) : Except Fault Nat :=
  match Text.readDecimal? operand with
  | none => .error (.operand .notStartAddress)
  | some value =>
    match inRange? 0 limit value with
    | none => .error .overflow
    | some 0 => .error (.operand .zeroStart)
    | some n => .ok n

/-- The start directive opens the program; it needs one operand, the first place in the source, an
address and a label, in this order (`SPEC_FULL.md` §10.8). -/
def placeStart (limit : Nat) (layout : Layout) (label : Option String) (operands : Operands) :
    Except Fault (Line × Layout) :=
  match operands.single with
  | .error fault => .error fault
  | .ok operand =>
    if layout.locationCounter ≠ 0 ∨ layout.startSeen = true then .error .repeatedStart
    else
      match startAddress limit operand with
      | .error fault => .error fault
      | .ok address =>
        match label with
        | none => .error .unlabelledStart
        | some name => .ok (.start name address, layout.openAt address)

/-- The entry address of the end directive. -/
def entryAddress (limit : Nat) (operand : String) : Except Fault Nat :=
  match Text.readDecimal? operand with
  | none => .error (.operand .notEntryAddress)
  | some value =>
    match inRange? 0 limit value with
    | none => .error (.operand (.outOfRange 0 limit))
    | some n => .ok n

/-- The end directive closes the program; without an operand, execution begins at the start. -/
def placeEnd (limit : Nat) (layout : Layout) (operands : Operands) : Except Fault Layout :=
  match operands with
  | .two _ _ => .error (.operandCount .twoForOptional)
  | .none =>
    if layout.startSeen then .ok (layout.closeAt layout.startAddress) else .error .endBeforeStart
  | .one operand =>
    if layout.startSeen then (entryAddress limit operand).map layout.closeAt
    else .error .endBeforeStart

/-- Content is put at the location counter, if it fits. -/
def placeContent (limit : Nat) (layout : Layout) (content : Content) :
    Except Fault (Line × Layout) :=
  (layout.allocate limit content.size).map fun next ↦ (.body layout.locationCounter content, next)

/-- A statement is placed by what its mnemonic stands for; only the end directive has no line. The
content of a line is found before its place is. -/
def placeStatement (g : Grammar) (limit : Nat) (layout : Layout) (s : Statement) :
    Except Fault (Option Line × Layout) :=
  match g.operation? s.mnemonic with
  | none => .error .unknownMnemonic
  | some (.directive .start) =>
    (placeStart limit layout s.label s.operands).map fun (line, next) ↦ (some line, next)
  | some (.directive .finish) =>
    (placeEnd limit layout s.operands).map fun next ↦ (none, next)
  | some (.directive (.storage kind)) =>
    ((s.operands.single.bind (storageContent kind)).bind (placeContent limit layout)).map
      fun (line, next) ↦ (some line, next)
  | some (.instruction d) =>
    ((instructionContent g d s.operands).bind (placeContent limit layout)).map
      fun (line, next) ↦ (some line, next)

/-- A label must be new; after the start directive it gets the current address (`SPEC_FULL.md` §4.4,
step 5). -/
def defineLabel (layout : Layout) (symbols : SymbolTable) (label : Option String) :
    Except Fault SymbolTable :=
  match label with
  | none => .ok symbols
  | some name =>
    if symbols.contains name then .error .duplicateLabel
    else if layout.startSeen then .ok (symbols.insert name layout.locationCounter)
    else .ok symbols

/-- A token line is placed; its label is defined even if its operands are then refused. -/
def placeLine (g : Grammar) (limit : Nat) (layout : Layout) (symbols : SymbolTable)
    (tokens : List String) : Except Fault (Option Line × Layout) × SymbolTable :=
  match g.parse tokens with
  | .error fault => (.error fault, symbols)
  | .ok s =>
    match defineLabel layout symbols s.label with
    | .error fault => (.error fault, symbols)
    | .ok defined => (placeStatement g limit layout s, defined)

/-- What is wrong before a line is looked at: memory has been taken up without a start directive,
or the location counter has passed the highest address (`SPEC_FULL.md` §4.4, steps 1 and 2). -/
def standingFault? (limit : Nat) (layout : Layout) : Option Fault :=
  if layout.startSeen then
    if limit < layout.locationCounter then some .overflow else none
  else
    if layout.locationCounter ≠ 0 then some .missingStart else none

/-- The token lines are placed one after another, up to the end directive or the first fault. -/
def placeFrom (g : Grammar) (limit : Nat) :
    Layout → SymbolTable → List (List String) → Except Error Placed × SymbolTable
  | layout, symbols, [] =>
    if layout.endSeen then (.ok { lines := [], layout }, symbols)
    else (.error { fault := .missingEnd, line := "" }, symbols)
  | layout, symbols, tokens :: rest =>
    match standingFault? limit layout with
    | some fault => (.error { fault, line := Token.join tokens }, symbols)
    | none =>
      if layout.endSeen then (.ok { lines := [], layout }, symbols)
      else
        match placeLine g limit layout symbols tokens with
        | (.error fault, defined) => (.error { fault, line := Token.join tokens }, defined)
        | (.ok (line, next), defined) =>
          match placeFrom g limit next defined rest with
          | (.error e, final) => (.error e, final)
          | (.ok placed, final) =>
            (.ok { placed with lines := line.toList ++ placed.lines }, final)

/-- The grammar of a table under the given limits. -/
def grammar (options : Options) (table : OpTable) : Grammar :=
  { table, maxLabelLength := options.maxLabelLength }

/-- A program is placed from its first line on, with the labels that are already defined:
`firstPass` of `SPEC_FULL.md` §§4.4/6. -/
def run (options : Options) (table : OpTable) (symbols : SymbolTable)
    (source : List (List String)) : Except Error Placed × SymbolTable :=
  placeFrom (grammar options table) options.limit .initial symbols source

end Placement

end SicXe
