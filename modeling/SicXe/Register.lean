/-!
# Registers

The machine has sixteen registers, written `R1` to `R16` with an upper-case letter (`SPEC_FULL.md`
§10.8).
-/

namespace SicXe.Register

/-- The number of the register that a token names. -/
def number? (token : String) : Option Nat :=
  match token.toList with
  | ['R', c] => if '1' ≤ c ∧ c ≤ '9' then some (c.toNat - 48) else none
  | ['R', '1', c] => if '0' ≤ c ∧ c ≤ '6' then some (10 + (c.toNat - 48)) else none
  | _ => none

/-- A token is a register when it names one. -/
def isName (token : String) : Bool :=
  (number? token).isSome

end SicXe.Register
