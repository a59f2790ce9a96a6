import SicXe.Placement
import SicXe.Proofs.Numbers

/-!
# Contents of listing lines

The content of a statement does not depend on where the statement stands. Whatever content is
found is well formed: numbers lie in their ranges, literals and registers are what they look like,
and the addressing mode in the low bits of a code byte agrees with the form of the operand. In
particular every content takes up at least one byte.
-/

namespace SicXe

/-! ### Code bytes -/

namespace Definition

/-- A code byte is four times the low six bits of the opcode. -/
theorem toNat_codeByte (d : Definition) : d.codeByte.toNat = 4 * (d.opcode.toNat % 64) := by
  have four : (4 : UInt8).toNat = 4 := rfl
  rw [codeByte, UInt8.toNat_mul, four]
  omega

/-- The mode bit of a label operand is added to the code byte. -/
theorem toNat_codeByte_or_one (d : Definition) :
    (d.codeByte ||| 1).toNat = d.codeByte.toNat + 1 := by
  have one : (1 : UInt8).toNat = 1 := rfl
  have shift : 4 * (d.opcode.toNat % 64) = (d.opcode.toNat % 64) <<< 2 := by
    rw [Nat.shiftLeft_eq]
    omega
  rw [UInt8.toNat_or, one, toNat_codeByte, shift, Nat.shiftLeft_add_eq_or_of_lt (by decide)]

end Definition

namespace Listing

/-! ### Well-formed contents -/

/-- The operand agrees with the addressing mode in the low bits of the code byte. -/
def Operand.WellFormed (code : UInt8) : Operand → Prop
  | none => code.toNat % 4 = 0
  | registers first second =>
    code.toNat % 4 = 0 ∧ Register.isName first = true ∧ Register.isName second = true
  | byte _ => code.toNat % 4 = 0
  | address value => code.toNat % 4 = 0 ∧ value ≤ maxField
  | symbol name => code.toNat % 4 = 1 ∧ IsIdentifier name

/-- A content that some statement has. -/
def Content.WellFormed : Content → Prop
  | word value => 1 ≤ value ∧ value ≤ maxField
  | byte _ => True
  | literal token =>
    (∃ cs, Literal.characters? token = some cs) ∨
      ∃ ds, Literal.digits? token = some ds ∧ ds.map Char.toUpper = ds
  | reserveWords count => count ≠ 0
  | reserveBytes count => count ≠ 0
  | instruction code operand => operand.WellFormed code

private theorem length_le_byteLength (s : String) : s.toList.length ≤ Text.byteLength s := by
  unfold Text.byteLength
  induction s.toList with
  | nil => simp
  | cons c cs ih =>
    have := c.utf8Size_pos
    rw [List.length_cons, List.foldr_cons]
    omega

private theorem literal_size_pos {mark : Char} {token : String} {cs : List Char}
    (h : Literal.contents? mark token = some cs) (hne : cs ≠ []) :
    1 ≤ Text.byteLength token - 3 := by
  obtain ⟨letter, -, he⟩ := Literal.toList_eq_of_contents? h
  have hl := length_le_byteLength token
  have hpos := List.length_pos_iff.mpr hne
  rw [he] at hl
  simp only [List.length_cons, List.length_append, List.length_nil] at hl
  omega

/-- A well-formed content takes up memory. -/
theorem Content.WellFormed.size_pos {c : Content} (h : c.WellFormed) : 1 ≤ c.size := by
  cases c with
  | word value => simp [size]
  | byte value => simp [size]
  | literal token =>
    rcases h with ⟨cs, hc⟩ | ⟨ds, hd, -⟩
    · obtain ⟨hcs, hne, -⟩ := Literal.characters?_eq_some_iff.mp hc
      exact literal_size_pos hcs hne
    · obtain ⟨hds, ⟨hne, -⟩, -⟩ := Literal.digits?_eq_some_iff.mp hd
      exact literal_size_pos hds hne
  | reserveWords count =>
    have : count.toNat ≠ 0 := fun hz ↦ h (UInt8.toNat_inj.mp hz)
    simp only [size]
    omega
  | reserveBytes count =>
    have : count.toNat ≠ 0 := fun hz ↦ h (UInt8.toNat_inj.mp hz)
    simp only [size]
    omega
  | instruction code operand => cases operand <;> simp [size, Operand.size]

end Listing

/-- Exactly one operand is a single one. -/
theorem Operands.single_eq_ok_iff {operands : Operands} {operand : String} :
    operands.single = .ok operand ↔ operands = .one operand := by
  cases operands <;> simp [single]

namespace Placement

open Listing (Content Line Operand)

variable {g : Grammar} {s : Statement} {c : Content}

/-- The content of a statement that takes up memory. -/
def content (g : Grammar) (s : Statement) : Except Fault Content :=
  match g.operation? s.mnemonic with
  | some (.directive (.storage kind)) => s.operands.single.bind (storageContent kind)
  | some (.instruction d) => instructionContent g d s.operands
  | _ => .error .unknownMnemonic

/-! ### Contents of statements are well formed -/

/-- A number between two bounds, as a natural number. -/
theorem inRange?_eq_some_iff {low high n : Nat} {value : Int} :
    inRange? low high value = some n ↔ value = Int.ofNat n ∧ low ≤ n ∧ n ≤ high := by
  simp only [inRange?, Int.ofNat_eq_natCast]
  split
  · rw [Option.some.injEq]
    omega
  · simp only [reduceCtorEq, false_iff]
    omega

/-- A decimal operand that denotes a number between two bounds. -/
def IsNumber (low high : Nat) (operand : String) (n : Nat) : Prop :=
  Text.IsDecimal operand n ∧ low ≤ n ∧ n ≤ high

/-- An operand denotes a number between two bounds when its decimal value lies there. -/
theorem isNumber_iff {low high n : Nat} {operand : String} :
    IsNumber low high operand n ↔
      ∃ value, Text.readDecimal? operand = some value ∧ inRange? low high value = some n := by
  simp only [IsNumber, inRange?_eq_some_iff, Text.readDecimal?_eq_some_iff]
  constructor
  · rintro ⟨hv, hb⟩
    exact ⟨_, hv, rfl, hb⟩
  · rintro ⟨_, hv, rfl, hb⟩
    exact ⟨hv, hb⟩

/-- A decimal operand is accepted exactly when its number lies between the bounds. -/
theorem number_eq_ok_iff {low high n : Nat} {operand : String} :
    number low high operand = .ok n ↔ IsNumber low high operand n := by
  rw [number, isNumber_iff]
  cases Text.readDecimal? operand with
  | none => simp
  | some value =>
    simp only [Option.some.injEq, exists_eq_left']
    cases inRange? low high value <;> simp

/-- A start address is a number above zero and within the limit. -/
theorem startAddress_eq_ok_iff {limit n : Nat} {operand : String} :
    startAddress limit operand = .ok n ↔ IsNumber 1 limit operand n := by
  rw [startAddress, isNumber_iff]
  cases Text.readDecimal? operand with
  | none => simp
  | some value =>
    simp only [Option.some.injEq, exists_eq_left', inRange?_eq_some_iff, Int.ofNat_eq_natCast]
    cases h : inRange? 0 limit value with
    | none =>
      -- A number that is refused from zero on is refused from one on.
      have hrange : ∀ m : Nat, ¬(value = m ∧ 0 ≤ m ∧ m ≤ limit) := by
        intro m hm
        rw [inRange?_eq_some_iff.mpr hm] at h
        cases h
      have := hrange n
      simp only [reduceCtorEq, false_iff]
      omega
    | some m =>
      obtain ⟨rfl, -, hm⟩ := inRange?_eq_some_iff.mp h
      cases m with
      | zero =>
        simp only [reduceCtorEq, false_iff, Int.ofNat_eq_natCast]
        omega
      | succ m =>
        simp only [Except.ok.injEq, Int.ofNat_eq_natCast]
        omega

/-- An entry address is a number within the limit. -/
theorem entryAddress_eq_ok_iff {limit n : Nat} {operand : String} :
    entryAddress limit operand = .ok n ↔ IsNumber 0 limit operand n := by
  rw [entryAddress, isNumber_iff]
  cases Text.readDecimal? operand with
  | none => simp
  | some value =>
    simp only [Option.some.injEq, exists_eq_left']
    cases inRange? 0 limit value <;> simp

/-- The content of a byte directive is a byte, a character literal as written or a hexadecimal
literal in upper case. -/
theorem byteContent_eq_ok {operand : String} (h : byteContent operand = .ok c) :
    (∃ value, c = .byte value) ∨
      (∃ cs, Literal.characters? operand = some cs ∧ c = .literal operand) ∨
      ∃ ds, Literal.digits? operand = some ds ∧ c = .literal (Text.uppercase operand) := by
  unfold byteContent at h
  split at h
  · split at h
    · cases h
    · exact Or.inl ⟨_, (Except.ok.inj h).symm⟩
  · split at h
    · next hc =>
      obtain ⟨cs, hcs⟩ := Option.isSome_iff_exists.mp hc
      exact Or.inr (Or.inl ⟨cs, hcs, (Except.ok.inj h).symm⟩)
    · split at h
      · next hd =>
        obtain ⟨ds, hds⟩ := Option.isSome_iff_exists.mp hd
        exact Or.inr (Or.inr ⟨ds, hds, (Except.ok.inj h).symm⟩)
      · cases h

/-- The content of a byte directive is well formed. -/
theorem byteContent_wellFormed {operand : String} (h : byteContent operand = .ok c) :
    c.WellFormed := by
  rcases byteContent_eq_ok h with ⟨value, rfl⟩ | ⟨cs, hcs, rfl⟩ | ⟨ds, hds, rfl⟩
  · trivial
  · exact Or.inl ⟨cs, hcs⟩
  · refine Or.inr ⟨ds.map Char.toUpper, Literal.digits?_uppercase hds, ?_⟩
    rw [List.map_map]
    apply List.map_congr_left
    intro d hd
    have hx := (Literal.digits?_eq_some_iff.mp hds).2.2 d hd
    exact Text.toUpper_toUpper (Text.isAscii_of_isHexDigit hx)

/-- Mapping keeps success and failure. -/
theorem map_eq_ok_iff {ε α β : Type} {f : α → β} {x : Except ε α} {b : β} :
    x.map f = .ok b ↔ ∃ a, x = .ok a ∧ f a = b := by
  cases x with
  | error e => simp [Except.map]
  | ok a => simp [Except.map]

/-- Binding succeeds when both steps do. -/
theorem bind_eq_ok_iff {ε α β : Type} {f : α → Except ε β} {x : Except ε α} {b : β} :
    x.bind f = .ok b ↔ ∃ a, x = .ok a ∧ f a = .ok b := by
  cases x with
  | error e => simp [Except.bind]
  | ok a => simp [Except.bind]

private theorem ofNat_ne_zero {n : Nat} (h : 1 ≤ n ∧ n ≤ 255) : UInt8.ofNat n ≠ 0 := by
  intro hz
  have hn := congrArg UInt8.toNat hz
  rw [UInt8.toNat_ofNat_of_lt' (by have := h.2; simp only [UInt8.size]; omega)] at hn
  have : (0 : UInt8).toNat = 0 := rfl
  omega

/-- The content of a storage directive is a word, what the byte directive has, or memory without a
value. -/
theorem storageContent_eq_ok {kind : Storage} {operand : String}
    (h : storageContent kind operand = .ok c) :
    (∃ n, (1 ≤ n ∧ n ≤ maxField) ∧ c = .word n) ∨ byteContent operand = .ok c ∨
      (∃ count, count ≠ 0 ∧ c = .reserveWords count) ∨
      ∃ count, count ≠ 0 ∧ c = .reserveBytes count := by
  cases kind with
  | word =>
    obtain ⟨n, hn, rfl⟩ := map_eq_ok_iff.mp h
    exact Or.inl ⟨n, (number_eq_ok_iff.mp hn).2, rfl⟩
  | byte => exact Or.inr (Or.inl h)
  | reserveWords =>
    obtain ⟨n, hn, rfl⟩ := map_eq_ok_iff.mp h
    exact Or.inr (Or.inr (Or.inl ⟨_, ofNat_ne_zero ((number_eq_ok_iff.mp hn).2), rfl⟩))
  | reserveBytes =>
    obtain ⟨n, hn, rfl⟩ := map_eq_ok_iff.mp h
    exact Or.inr (Or.inr (Or.inr ⟨_, ofNat_ne_zero ((number_eq_ok_iff.mp hn).2), rfl⟩))

private theorem storageContent_wellFormed {kind : Storage} {operand : String}
    (h : storageContent kind operand = .ok c) : c.WellFormed := by
  rcases storageContent_eq_ok h with ⟨n, hn, rfl⟩ | hb | ⟨count, hc, rfl⟩ | ⟨count, hc, rfl⟩
  · exact hn
  · exact byteContent_wellFormed hb
  · exact hc
  · exact hc

/-- The content of an instruction has its code byte, and a label operand sets the mode bit. -/
theorem instructionContent_eq_ok {d : Definition} {operands : Operands}
    (h : instructionContent g d operands = .ok c) :
    (∃ operand, c = .instruction d.codeByte operand ∧ operand.WellFormed d.codeByte) ∨
      ∃ name, c = .instruction (d.codeByte ||| 1) (.symbol name) ∧ g.isLabel name = true := by
  have mode : d.codeByte.toNat % 4 = 0 := by
    rw [d.toNat_codeByte]
    omega
  unfold instructionContent at h
  split at h
  · exact Or.inl ⟨.none, (Except.ok.inj h).symm, mode⟩
  · cases h
  · cases h
  · next a b _ =>
    split at h
    · next hr =>
      rw [Bool.and_eq_true] at hr
      exact Or.inl ⟨.registers a b, (Except.ok.inj h).symm, mode, hr⟩
    · cases h
  · obtain ⟨n, hn, rfl⟩ := map_eq_ok_iff.mp h
    exact Or.inl ⟨.byte (UInt8.ofNat n), rfl, mode⟩
  · obtain ⟨operand, -, ha⟩ := bind_eq_ok_iff.mp h
    unfold addressContent at ha
    split at ha
    · next hl => exact Or.inr ⟨operand, (Except.ok.inj ha).symm, hl⟩
    · split at ha
      · next n hn =>
        obtain ⟨value, -, hr⟩ := Option.bind_eq_some_iff.mp hn
        exact Or.inl ⟨.address n, (Except.ok.inj ha).symm, mode, (inRange?_eq_some_iff.mp hr).2.2⟩
      · cases ha

private theorem instructionContent_wellFormed {d : Definition} {operands : Operands}
    (h : instructionContent g d operands = .ok c) : c.WellFormed := by
  rcases instructionContent_eq_ok h with ⟨operand, rfl, hw⟩ | ⟨name, rfl, hl⟩
  · exact hw
  · refine ⟨?_, Grammar.isIdentifier_of_isLabel hl⟩
    rw [d.toNat_codeByte_or_one, d.toNat_codeByte]
    omega

/-- The content of every statement is well formed. -/
theorem content_wellFormed (h : content g s = .ok c) : c.WellFormed := by
  unfold content at h
  split at h
  · obtain ⟨operand, -, hs⟩ := bind_eq_ok_iff.mp h
    exact storageContent_wellFormed hs
  · exact instructionContent_wellFormed h
  · cases h

/-- A literal content comes from the operand of a byte directive. -/
theorem content_eq_literal {token : String} (h : content g s = .ok (.literal token)) :
    ∃ operand ∈ s.operands.toList,
      (∃ cs, Literal.characters? operand = some cs ∧ token = operand) ∨
      ∃ ds, Literal.digits? operand = some ds ∧ token = Text.uppercase operand := by
  unfold content at h
  split at h
  · obtain ⟨operand, ho, hs⟩ := bind_eq_ok_iff.mp h
    have hmem : operand ∈ s.operands.toList := by
      rw [Operands.single_eq_ok_iff.mp ho, Operands.toList]
      exact List.mem_singleton_self operand
    refine ⟨operand, hmem, ?_⟩
    rcases storageContent_eq_ok hs with ⟨_, -, hc⟩ | hb | ⟨_, -, hc⟩ | ⟨_, -, hc⟩
    · cases hc
    · rcases byteContent_eq_ok hb with ⟨value, hc⟩ | ⟨cs, hcs, hc⟩ | ⟨ds, hds, hc⟩
      · cases hc
      · exact Or.inl ⟨cs, hcs, Content.literal.inj hc⟩
      · exact Or.inr ⟨ds, hds, Content.literal.inj hc⟩
    · cases hc
    · cases hc
  · rcases instructionContent_eq_ok h with ⟨operand, hc, -⟩ | ⟨name, hc, -⟩
    · cases hc
    · cases hc
  · cases h

/-- An instruction as content comes from a mnemonic that stands for an instruction. -/
theorem content_eq_instruction {code : UInt8} {operand : Operand}
    (h : content g s = .ok (.instruction code operand)) :
    ∃ d, g.operation? s.mnemonic = some (.instruction d) ∧
      instructionContent g d s.operands = .ok (.instruction code operand) := by
  unfold content at h
  split at h
  · obtain ⟨token, -, hs⟩ := bind_eq_ok_iff.mp h
    rcases storageContent_eq_ok hs with ⟨_, -, hc⟩ | hb | ⟨_, -, hc⟩ | ⟨_, -, hc⟩
    · cases hc
    · rcases byteContent_eq_ok hb with ⟨value, hc⟩ | ⟨cs, -, hc⟩ | ⟨ds, -, hc⟩ <;> cases hc
    · cases hc
    · cases hc
  · next d hd => exact ⟨d, hd, h⟩
  · cases h

/-- A content with a label operand comes from an instruction, whose code byte gets the mode bit. -/
theorem content_eq_symbol {code : UInt8} {name : String}
    (h : content g s = .ok (.instruction code (.symbol name))) :
    ∃ d, g.operation? s.mnemonic = some (.instruction d) ∧ code = d.codeByte ||| 1 := by
  obtain ⟨d, hd, hi⟩ := content_eq_instruction h
  refine ⟨d, hd, ?_⟩
  rcases instructionContent_eq_ok hi with ⟨operand, hc, hw⟩ | ⟨label, hc, -⟩
  · -- A label operand never goes with addressing mode zero.
    obtain ⟨rfl, rfl⟩ := Content.instruction.inj hc
    have := hw.1
    rw [d.toNat_codeByte] at this
    omega
  · exact (Content.instruction.inj hc).1

end Placement

end SicXe
