import SicXe.Diagnostic
import SicXe.Text.Numeral

/-!
# Faults

The causes for which input is refused. A fault says what is wrong; an error is a fault together
with the line at which it was found. Every wording stands in this module. The categories are the
error taxonomy of `SPEC_FULL.md` §§7/10.2.
-/

namespace SicXe

/-- What can be wrong with an instruction definition taken on its own. -/
inductive DefinitionFault where
  /-- The name has no characters. -/
  | emptyName
  /-- The first character of the name is no Latin letter. -/
  | nameStart
  /-- A later character of the name is neither a Latin letter nor a digit. -/
  | nameCharacter
  /-- The code field is no hexadecimal number. -/
  | codeNotHex
  /-- The code does not fit in six bits. -/
  | codeRange
  /-- The length field is no hexadecimal number. -/
  | lengthNotHex
  /-- The length is not that of an instruction format. -/
  | lengthValue
  deriving DecidableEq, Repr

/-- What can be wrong with the number of operands. -/
inductive CountFault where
  /-- One operand is needed and none is given. -/
  | noneForOne
  /-- One operand is needed and two are given. -/
  | twoForOne
  /-- No operand is allowed. -/
  | someForNone
  /-- An operand is needed and none is given. -/
  | noneForSome
  /-- Two operands are given where one may stand. -/
  | twoForOptional
  deriving DecidableEq, Repr

/-- What can be wrong with the text or value of an operand. -/
inductive OperandFault where
  /-- The operand is no decimal number. -/
  | notNumber
  /-- The number lies outside the allowed range. -/
  | outOfRange (low high : Nat)
  /-- A byte operand is neither a number nor a literal. -/
  | notByteOrLiteral
  /-- The operand of the start directive is no number. -/
  | notStartAddress
  /-- The operand of the end directive is no number. -/
  | notEntryAddress
  /-- The program would start at address zero. -/
  | zeroStart
  /-- Two operands are given that are not both registers. -/
  | notRegisters
  /-- An address operand is neither a label nor a number in range. -/
  | notAddress
  /-- A listed byte operand is neither a byte nor a literal. -/
  | notByteString
  /-- A listed reserve count is no byte above zero. -/
  | reserveCount
  deriving DecidableEq, Repr

/-- The causes for which input is refused. -/
inductive Fault where
  /-- A token line has no parse as a statement. -/
  | malformedStatement
  /-- A listing line has fewer than two or more than four tokens. -/
  | malformedEntry
  /-- A table row does not have three tokens. -/
  | malformedRow
  /-- The start directive has no label. -/
  | unlabelledStart
  /-- A listing line lacks the operand it needs. -/
  | missingOperand
  /-- A label is defined twice. -/
  | duplicateLabel
  /-- An instruction name is defined twice. -/
  | duplicateName
  /-- An opcode is given to two instructions. -/
  | duplicateOpcode
  /-- An instruction definition is wrong on its own. -/
  | definition (fault : DefinitionFault)
  /-- Storage is allocated before the start directive. -/
  | missingStart
  /-- A start directive is not the first line. -/
  | repeatedStart
  /-- The source ends without an end directive. -/
  | missingEnd
  /-- An end directive comes before the start directive. -/
  | endBeforeStart
  /-- The entry address is not inside the program. -/
  | entryOutside (address : Nat)
  /-- A statement has the wrong number of operands. -/
  | operandCount (fault : CountFault)
  /-- An operand is wrong. -/
  | operand (fault : OperandFault)
  /-- The program does not fit below the highest address. -/
  | overflow
  /-- A label is used and never defined. -/
  | undefinedSymbol
  /-- The low bits of a listed opcode name no addressing mode. -/
  | unknownMode
  /-- A mnemonic is neither a directive nor an instruction. -/
  | unknownMnemonic
  /-- A listed opcode is no byte. -/
  | unknownCode
  /-- The listing has no lines. -/
  | emptyProgram
  deriving DecidableEq, Repr

namespace DefinitionFault

/-- The wording of a definition fault. -/
def message : DefinitionFault → String
  | emptyName => "Instruction name must not be empty"
  | nameStart => "Instruction name must start with a Latin letter"
  | nameCharacter => "Instruction name must consist of Latin letters and digits"
  | codeNotHex => "Instruction code must be a hexadecimal integer"
  | codeRange => "Instruction code must be between 00 and 3F"
  | lengthNotHex => "Instruction length must be a hexadecimal integer"
  | lengthValue => "Instruction length must be 1, 2 or 4"

end DefinitionFault

namespace CountFault

/-- The wording of an operand count fault. -/
def message : CountFault → String
  | noneForOne => "Expected one operand, found none"
  | twoForOne => "Expected one operand, found two"
  | someForNone => "Expected no operands"
  | noneForSome => "Expected at least one operand"
  | twoForOptional => "Expected at most one operand"

end CountFault

namespace OperandFault

/-- The wording of an operand fault. -/
def message : OperandFault → String
  | notNumber => "Operand is not a number"
  | outOfRange low high =>
    "Operand out of range (" ++ toString low ++ "-" ++ toString high ++ ")"
  | notByteOrLiteral => "Operand is neither a byte value nor a character or hex string"
  | notStartAddress => "Cannot convert operand to a start address"
  | notEntryAddress => "Cannot convert operand to an entry address"
  | zeroStart => "Program start address cannot be zero"
  | notRegisters => "Expected two registers"
  | notAddress => "Invalid operand value"
  | notByteString => "Cannot convert operand to a byte string"
  | reserveCount => "Reserve count must be between 01 and FF"

end OperandFault

namespace Fault

/-- The category under which a fault is reported. -/
def category : Fault → Category
  | malformedStatement | malformedEntry | malformedRow | unlabelledStart | missingOperand =>
    .malformedLine
  | duplicateLabel => .duplicateLabel
  | duplicateName => .duplicateName
  | duplicateOpcode => .duplicateOpcode
  | definition _ => .invalidInstruction
  | missingStart => .missingStart
  | repeatedStart => .duplicateStart
  | missingEnd | endBeforeStart => .missingEntryPoint
  | entryOutside _ => .invalidEntryPoint
  | operandCount _ => .operandCountMismatch
  | operand _ => .invalidOperand
  | overflow => .memoryOverflow
  | undefinedSymbol => .undefinedSymbol
  | unknownMode => .unknownAddressingMode
  | unknownMnemonic | unknownCode => .unknownMnemonic
  | emptyProgram => .emptyProgram

/-- The wording of a fault. -/
def message : Fault → String
  | malformedStatement => "Invalid instruction format"
  | malformedEntry => "Invalid intermediate line format"
  | malformedRow => "Instruction row must be <name> <code> <length>"
  | unlabelledStart => "START directive must be preceded by a label"
  | missingOperand => "First operand is empty"
  | duplicateLabel => "Label is already defined in the symbol table"
  | duplicateName => "All instruction names must be unique"
  | duplicateOpcode => "All instruction codes must be unique"
  | definition fault => fault.message
  | missingStart => "START directive not found at the beginning of the program"
  | repeatedStart => "START must appear once, at the beginning of the source"
  | missingEnd => "Program entry point not found (missing END)"
  | endBeforeStart => "END found without a preceding START"
  | entryOutside address => "Invalid program entry point " ++ Text.hex 6 address
  | operandCount fault => fault.message
  | operand fault => fault.message
  | overflow => "Allocated memory overflow"
  | undefinedSymbol => "Label not found in the symbol table"
  | unknownMode => "Unknown addressing mode"
  | unknownMnemonic => "Unknown instruction"
  | unknownCode => "Unknown instruction code"
  | emptyProgram => "No intermediate lines to assemble"

end Fault

/-- A fault found at a line; the line is empty when the fault belongs to none. -/
structure Error where
  /-- What is wrong. -/
  fault : Fault
  /-- The text of the offending line. -/
  line : String
  deriving DecidableEq, Repr

namespace Error

/-- The diagnostic that reports an error. -/
def diagnostic (e : Error) : Diagnostic :=
  Diagnostic.atLine e.fault.category e.fault.message e.line

end Error

/-- A result whose fault, if any, is placed at a line. -/
def atLine {α : Type} (line : String) : Except Fault α → Except Error α
  | .ok a => .ok a
  | .error fault => .error ⟨fault, line⟩

/-- The results of a function on each element, in order, or the error of the first element that it
refuses. -/
def collect {α β : Type} (f : α → Except Error β) : List α → Except Error (List β)
  | [] => .ok []
  | a :: rest =>
    match f a with
    | .error e => .error e
    | .ok b => (collect f rest).map (b :: ·)

/-- Collecting succeeds exactly when every element has a result. -/
theorem collect_eq_ok_iff {α β : Type} (f : α → Except Error β) (as : List α) (bs : List β) :
    collect f as = .ok bs ↔ as.map f = bs.map .ok := by
  induction as generalizing bs with
  | nil => cases bs <;> simp [collect]
  | cons a rest ih =>
    rw [collect]
    cases h : f a with
    | error e => cases bs <;> simp [h]
    | ok b =>
      cases hr : collect f rest with
      | error e =>
        cases bs with
        | nil => simp [Except.map]
        | cons c cs =>
          have := ih cs
          simp [hr] at this
          simp [Except.map, h, this]
      | ok others =>
        cases bs with
        | nil => simp [Except.map]
        | cons c cs =>
          have := ih cs
          simp [hr] at this
          simp [Except.map, h, this]

/-- Collecting fails exactly with the error of an element before which every element has a
result. -/
theorem collect_eq_error_iff {α β : Type} (f : α → Except Error β) (as : List α) (e : Error) :
    collect f as = .error e ↔
      ∃ before a after, as = before ++ a :: after ∧ (∀ b ∈ before, ∃ r, f b = .ok r) ∧
        f a = .error e := by
  induction as with
  | nil => simp [collect]
  | cons a rest ih =>
    rw [collect]
    cases h : f a with
    | error e' =>
      constructor
      · intro he
        obtain rfl : e' = e := Except.error.inj he
        exact ⟨[], a, rest, rfl, by simp, h⟩
      · rintro ⟨before, x, after, hs, hb, hx⟩
        cases before with
        | nil =>
          obtain ⟨rfl, -⟩ := List.cons.inj hs
          obtain rfl := Except.error.inj (h.symm.trans hx)
          rfl
        | cons b before =>
          obtain ⟨rfl, -⟩ := List.cons.inj hs
          obtain ⟨r, hr⟩ := hb a List.mem_cons_self
          rw [h] at hr
          cases hr
    | ok b =>
      have hmap : (collect f rest).map (b :: ·) = .error e ↔ collect f rest = .error e := by
        cases collect f rest <;> simp [Except.map]
      rw [hmap, ih]
      constructor
      · rintro ⟨before, x, after, rfl, hb, hx⟩
        refine ⟨a :: before, x, after, rfl, ?_, hx⟩
        intro y hy
        rcases List.mem_cons.mp hy with rfl | hy
        · exact ⟨b, h⟩
        · exact hb y hy
      · rintro ⟨before, x, after, hs, hb, hx⟩
        cases before with
        | nil =>
          obtain ⟨rfl, -⟩ := List.cons.inj hs
          rw [h] at hx
          cases hx
        | cons y before =>
          obtain ⟨-, rfl⟩ := List.cons.inj hs
          exact ⟨before, x, after, rfl, fun z hz ↦ hb z (List.mem_cons_of_mem y hz), hx⟩

end SicXe
