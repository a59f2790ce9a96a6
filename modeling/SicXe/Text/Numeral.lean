/-!
# Numerals

Addresses, bytes and opcodes are written in upper-case hexadecimal of a least width; source
operands are signed decimal integers of 64 bits; hexadecimal fields may carry a plus sign and any
number of leading zeros. Writing pads with zeros and never cuts digits off.
-/

namespace SicXe.Text

/-- The upper-case digit of a value below sixteen. -/
def hexDigit (n : Nat) : Char :=
  if n < 10 then Char.ofNat (48 + n) else Char.ofNat (55 + n)

/-- The hexadecimal digits of a number without leading zeros; zero has one digit. -/
def hexDigits (n : Nat) : List Char :=
  if n < 16 then [hexDigit n] else hexDigits (n / 16) ++ [hexDigit (n % 16)]

/-- A number in upper-case hexadecimal, filled up with zeros to at least `width` digits. -/
def hex (width n : Nat) : String :=
  String.ofList ((hexDigits n).leftpad width '0')

/-- The value of a decimal digit. -/
def decimalDigit? (c : Char) : Option Nat :=
  if c.isDigit then some (c.toNat - 48) else none

/-- The value of a hexadecimal digit of either case. -/
def hexDigit? (c : Char) : Option Nat :=
  if c.isDigit then some (c.toNat - 48)
  else if 'A' ≤ c ∧ c ≤ 'F' then some (c.toNat - 55)
  else if 'a' ≤ c ∧ c ≤ 'f' then some (c.toNat - 87)
  else none

/-- A hexadecimal digit is a character that has a value as one. -/
def isHexDigit (c : Char) : Bool := (hexDigit? c).isSome

/-- The number that a run of digits denotes from a number already read. -/
def readDigitsFrom? (base : Nat) (digit? : Char → Option Nat) : Nat → List Char → Option Nat
  | n, [] => some n
  | n, c :: cs =>
    match digit? c with
    | some d => readDigitsFrom? base digit? (base * n + d) cs
    | none => none

/-- The number that a non-empty run of digits denotes, most significant digit first. -/
def readDigits? (base : Nat) (digit? : Char → Option Nat) (cs : List Char) : Option Nat :=
  if cs.isEmpty then none else readDigitsFrom? base digit? 0 cs

/-- The number below `bound` that a hexadecimal field denotes: an optional plus sign and at least
one digit. -/
def readHexBelow? (bound : Nat) (s : String) : Option Nat :=
  let value? :=
    match s.toList with
    | '+' :: cs => readDigits? 16 hexDigit? cs
    | cs => readDigits? 16 hexDigit? cs
  value?.filter fun n ↦ n < bound

/-- The least integer of 64 bits. -/
def minInteger : Int := -9223372036854775808

/-- The greatest integer of 64 bits. -/
def maxInteger : Int := 9223372036854775807

/-- The integer of 64 bits that a decimal operand denotes: an optional sign and at least one
digit. -/
def readDecimal? (s : String) : Option Int :=
  let value? : Option Int :=
    match s.toList with
    | '-' :: cs => (readDigits? 10 decimalDigit? cs).map fun n ↦ -Int.ofNat n
    | '+' :: cs => (readDigits? 10 decimalDigit? cs).map Int.ofNat
    | cs => (readDigits? 10 decimalDigit? cs).map Int.ofNat
  value?.filter fun n ↦ minInteger ≤ n && n ≤ maxInteger

/-- A written number has at least the asked width and all of its digits. -/
theorem toList_hex (width n : Nat) :
    (hex width n).toList = List.replicate (width - (hexDigits n).length) '0' ++ hexDigits n := by
  simp only [hex, String.toList_ofList, List.leftpad]

/-- A number has at least one digit. -/
theorem hexDigits_ne_nil (n : Nat) : hexDigits n ≠ [] := by
  rw [hexDigits]
  split <;> simp

/-- Reading goes through a run of digits from left to right. -/
theorem readDigitsFrom?_append (base : Nat) (digit? : Char → Option Nat) (n : Nat)
    (cs ds : List Char) :
    readDigitsFrom? base digit? n (cs ++ ds) =
      (readDigitsFrom? base digit? n cs).bind fun m ↦ readDigitsFrom? base digit? m ds := by
  induction cs generalizing n with
  | nil => rfl
  | cons c cs ih =>
    simp only [List.cons_append, readDigitsFrom?]
    cases digit? c with
    | none => rfl
    | some d => exact ih (base * n + d)

/-- The digit of a value below sixteen denotes that value. -/
theorem hexDigit?_hexDigit {n : Nat} (h : n < 16) : hexDigit? (hexDigit n) = some n := by
  have all : ∀ m : Fin 16, hexDigit? (hexDigit m) = some m.val := by decide
  exact all ⟨n, h⟩

/-- The digits of a number denote it. -/
theorem readDigitsFrom?_hexDigits (n : Nat) :
    readDigitsFrom? 16 hexDigit? 0 (hexDigits n) = some n := by
  induction n using Nat.strongRecOn with
  | ind n ih =>
    rw [hexDigits]
    split
    · rename_i h
      simp only [readDigitsFrom?, hexDigit?_hexDigit h, Nat.mul_zero, Nat.zero_add]
    · rename_i h
      rw [readDigitsFrom?_append, ih (n / 16) (by omega)]
      simp only [Option.bind_some, readDigitsFrom?,
        hexDigit?_hexDigit (Nat.mod_lt n (by decide : 0 < 16))]
      rw [Nat.div_add_mod]

end SicXe.Text
