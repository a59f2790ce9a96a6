import SicXe.Text.Numeral
import SicXe.Token

/-!
# Object records

An object program is a header record, a record for each line that occupies memory and an end
record. As text, a record is its fields joined by single spaces (`SPEC_FULL.md` §3).
-/

namespace SicXe

/-- A record of an object program. -/
inductive Record where
  /-- The name, first address and length of the program. -/
  | header (name : String) (start length : Nat)
  /-- Bytes in hexadecimal, with the address at which they are loaded. -/
  | text (label : String) (length : Nat) (payload : String)
  /-- Memory without a value, with its address. -/
  | reserve (label : String) (length : Nat)
  /-- The address at which execution begins. -/
  | finish (address : Nat)
  deriving DecidableEq, Repr

namespace Record

/-- The fields of a record, beginning with its letter. -/
def fields : Record → List String
  | header name start length => ["H", name, Text.hex 6 start, Text.hex 6 length]
  | text label length payload => ["T", label, Text.hex 2 length, payload]
  | reserve label length => ["T", label, Text.hex 2 length]
  | finish address => ["E", Text.hex 6 address]

/-- A record as text. -/
def render (record : Record) : String :=
  Token.join record.fields

end Record

end SicXe
