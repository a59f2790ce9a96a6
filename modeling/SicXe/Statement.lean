import SicXe.Directive
import SicXe.OpTable
import SicXe.Register

/-!
# Statements

A statement is a line of source taken apart: an optional label, a mnemonic and up to two operands.
Which tokens can be labels and mnemonics depends on the instruction table and on the greatest
length of a label, together called a grammar. A token line has at most one reading. This is the line
classifier of `SPEC_FULL.md` §4.3.
-/

namespace SicXe

/-- The operands of a statement. -/
inductive Operands where
  | none
  | one (first : String)
  | two (first second : String)
  deriving DecidableEq, Repr

/-- A line of source taken apart; label and mnemonic are in upper case, operands as written. -/
structure Statement where
  /-- The label in front of the mnemonic. -/
  label : Option String
  /-- The name of an instruction or a directive. -/
  mnemonic : String
  /-- What follows the mnemonic. -/
  operands : Operands
  deriving DecidableEq, Repr

/-- What decides how a token line is read. -/
structure Grammar where
  /-- The instructions whose names are mnemonics. -/
  table : OpTable
  /-- The greatest number of characters of a label. -/
  maxLabelLength : Nat
  deriving DecidableEq, Repr

/-- What a mnemonic stands for. -/
inductive Operation where
  | directive (directive : Directive)
  | instruction (definition : Definition)
  deriving DecidableEq, Repr

namespace Operands

/-- The operands, in order. -/
def toList : Operands → List String
  | none => []
  | one first => [first]
  | two first second => [first, second]

/-- The number of operands. -/
def count (operands : Operands) : Nat :=
  operands.toList.length

end Operands

namespace Statement

/-- The statement of a label, a mnemonic and operands as they were written. -/
def ofWritten (label : Option String) (mnemonic : String) (operands : Operands) : Statement :=
  { label := label.map Text.uppercase, mnemonic := Text.uppercase mnemonic, operands }

end Statement

namespace Grammar

/-- An instruction is a name that the table contains. -/
def isInstruction (g : Grammar) (token : String) : Bool :=
  g.table.contains token

/-- A mnemonic is an instruction or a directive. -/
def isMnemonic (g : Grammar) (token : String) : Bool :=
  g.isInstruction token || Directive.isName token

/-- The mnemonics that can stand after a label without an operand: instructions and the two
directives that open and close a program. -/
def standsAlone (g : Grammar) (token : String) : Bool :=
  g.isInstruction token || Directive.ofToken? token == some .start ||
    Directive.ofToken? token == some .finish

/-- A label is a Latin letter followed by Latin letters, digits and underscores; it is not too
long, and it is no register in any case, no instruction and no directive. -/
def isLabel (g : Grammar) (token : String) : Bool :=
  match token.toList with
  | [] => false
  | c :: cs =>
    c.isAlpha && (c :: cs).length ≤ g.maxLabelLength &&
      cs.all (fun d ↦ d.isAlphanum || d == '_') && !Register.isName (Text.uppercase token) &&
      !g.isMnemonic token

/-- The reading of a token line. -/
def statement? (g : Grammar) : List String → Option Statement
  | [a] =>
    if g.isInstruction a || Text.sameName a "END" then some (.ofWritten none a .none) else none
  | [a, b] =>
    if g.isLabel a && g.standsAlone b then some (.ofWritten (some a) b .none)
    else if g.isMnemonic a then some (.ofWritten none a (.one b))
    else none
  | [a, b, c] =>
    if g.isLabel a && g.isMnemonic b then some (.ofWritten (some a) b (.one c))
    else if g.isInstruction a then some (.ofWritten none a (.two b c))
    else none
  | [a, b, c, d] =>
    if g.isLabel a && g.isInstruction b then some (.ofWritten (some a) b (.two c d)) else none
  | _ => none

/-- The statement of a token line, or the fault that it has none. -/
def parse (g : Grammar) (tokens : List String) : Except Fault Statement :=
  match g.statement? tokens with
  | some s => .ok s
  | none => .error .malformedStatement

/-- What a mnemonic stands for; a directive wins over an instruction of the same name. -/
def operation? (g : Grammar) (mnemonic : String) : Option Operation :=
  match Directive.ofToken? mnemonic with
  | some directive => some (.directive directive)
  | none => (g.table.find? mnemonic).map .instruction

/-- A label is no mnemonic. -/
theorem isMnemonic_eq_false_of_isLabel {g : Grammar} {token : String}
    (h : g.isLabel token = true) : g.isMnemonic token = false := by
  unfold isLabel at h
  split at h
  · simp at h
  · simp only [Bool.and_eq_true, Bool.not_eq_eq_eq_not, Bool.not_true] at h
    exact h.2

end Grammar

end SicXe
