/-!
# Diagnostics

A diagnostic is what a user sees of a refused input: its category, a message and, when the refusal
belongs to a line, the text of that line (`SPEC_FULL.md` §10.2).
-/

namespace SicXe

/-- The categories of refused input. -/
inductive Category where
  | malformedLine
  | duplicateLabel
  | duplicateName
  | duplicateOpcode
  | invalidInstruction
  | missingStart
  | duplicateStart
  | missingEntryPoint
  | invalidEntryPoint
  | operandCountMismatch
  | invalidOperand
  | memoryOverflow
  | undefinedSymbol
  | unknownAddressingMode
  | unknownMnemonic
  | emptyProgram
  deriving DecidableEq, Repr

namespace Category

/-- All categories. -/
def all : List Category :=
  [malformedLine, duplicateLabel, duplicateName, duplicateOpcode, invalidInstruction, missingStart,
    duplicateStart, missingEntryPoint, invalidEntryPoint, operandCountMismatch, invalidOperand,
    memoryOverflow, undefinedSymbol, unknownAddressingMode, unknownMnemonic, emptyProgram]

/-- The name of a category in output. -/
def name : Category → String
  | malformedLine => "MalformedLine"
  | duplicateLabel => "DuplicateLabel"
  | duplicateName => "DuplicateName"
  | duplicateOpcode => "DuplicateOpcode"
  | invalidInstruction => "InvalidInstruction"
  | missingStart => "MissingStart"
  | duplicateStart => "DuplicateStart"
  | missingEntryPoint => "MissingEntryPoint"
  | invalidEntryPoint => "InvalidEntryPoint"
  | operandCountMismatch => "OperandCountMismatch"
  | invalidOperand => "InvalidOperand"
  | memoryOverflow => "MemoryOverflow"
  | undefinedSymbol => "UndefinedSymbol"
  | unknownAddressingMode => "UnknownAddressingMode"
  | unknownMnemonic => "UnknownMnemonic"
  | emptyProgram => "EmptyProgram"

/-- The category with a given name. -/
def ofName? (s : String) : Option Category :=
  all.find? fun category ↦ category.name == s

end Category

/-- A refusal as it is shown: category, message and the line it belongs to. -/
structure Diagnostic where
  /-- The category of the refusal. -/
  category : Category
  /-- What is wrong, without the line. -/
  message : String
  /-- The offending line, if there is one. -/
  line : Option String
  deriving DecidableEq, Repr

namespace Diagnostic

/-- A diagnostic at a line; an empty line text stands for no line. -/
def atLine (category : Category) (message line : String) : Diagnostic :=
  { category, message, line := if line = "" then none else some line }

/-- The message on one line, followed by the offending line if there is one. -/
def summary (d : Diagnostic) : String :=
  match d.line with
  | none => d.message
  | some line => d.message ++ ": " ++ line

/-- The category and message, with the offending line on a second line. -/
def render (d : Diagnostic) : String :=
  let heading := "error[" ++ d.category.name ++ "]: " ++ d.message
  match d.line with
  | none => heading
  | some line => heading ++ "\n  --> " ++ line

end Diagnostic

end SicXe
