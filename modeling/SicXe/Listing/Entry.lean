import SicXe.Fault
import SicXe.Statement

/-!
# Entries of a listing text

A listing is read back from its text as entries: the slot that holds an address or the name of the
program, a code and up to two operands. Nothing in an entry is checked beyond the number of its
tokens, so that a listing may be edited by hand. This is the second classifier of `SPEC_FULL.md`
§4.3.
-/

namespace SicXe.Listing

/-- A listing line that was read back; slot and code are in upper case, operands as written. -/
structure Entry where
  /-- An address, or the name of the program on the opening line. -/
  slot : String
  /-- A storage directive or a code byte. -/
  code : String
  /-- What follows the code. -/
  operands : Operands
  deriving DecidableEq, Repr

namespace Entry

/-- The entry of a slot, a code and operands as they were written. -/
def ofWritten (slot code : String) (operands : Operands) : Entry :=
  { slot := Text.uppercase slot, code := Text.uppercase code, operands }

/-- The entry of two to four tokens. -/
def parse : List String → Except Fault Entry
  | [slot, code] => .ok (ofWritten slot code .none)
  | [slot, code, a] => .ok (ofWritten slot code (.one a))
  | [slot, code, a, b] => .ok (ofWritten slot code (.two a b))
  | _ => .error .malformedEntry

end Entry

end SicXe.Listing
