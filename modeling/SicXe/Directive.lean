import SicXe.Text.Case

/-!
# Directives

Directives open and close a program or set storage aside (`SPEC_FULL.md` §3). Their names are
recognised in the full upper-case form of a token.
-/

namespace SicXe

/-- The directives that put storage at the location counter. -/
inductive Storage where
  /-- One word with a value. -/
  | word
  /-- One byte with a value, or the bytes of a literal. -/
  | byte
  /-- Words without a value. -/
  | reserveWords
  /-- Bytes without a value. -/
  | reserveBytes
  deriving DecidableEq, Repr

/-- The directives of the assembly language. -/
inductive Directive where
  /-- Opens a program and sets its first address. -/
  | start
  /-- Closes a program and sets its entry address. -/
  | finish
  /-- Puts storage at the location counter. -/
  | storage (kind : Storage)
  deriving DecidableEq, Repr

namespace Storage

/-- The name of a storage directive. -/
def name : Storage → String
  | word => "WORD"
  | byte => "BYTE"
  | reserveWords => "RESW"
  | reserveBytes => "RESB"

end Storage

namespace Directive

/-- All directives, in the order of the reference card. -/
def all : List Directive :=
  [start, finish, storage .word, storage .byte, storage .reserveBytes, storage .reserveWords]

/-- The name of a directive. -/
def name : Directive → String
  | start => "START"
  | finish => "END"
  | storage kind => kind.name

/-- The directive that a token names, in any case. -/
def ofToken? (token : String) : Option Directive :=
  all.find? fun directive ↦ directive.name == Text.uppercase token

/-- A token is a directive when it names one. -/
def isName (token : String) : Bool :=
  (ofToken? token).isSome

/-- A token names a directive exactly when its upper-case form is that name. -/
theorem ofToken?_eq_some_iff (token : String) (directive : Directive) :
    ofToken? token = some directive ↔ Text.uppercase token = directive.name := by
  constructor
  · intro h
    have found := List.find?_some h
    simpa using (beq_iff_eq.mp found).symm
  · intro h
    rw [ofToken?, h]
    rcases directive with _ | _ | (_ | _ | _ | _) <;> decide

end Directive

end SicXe
