import SicXe.Directive
import SicXe.Proofs.Spelling

/-!
# Written numbers

A number in hexadecimal is a plain token of upper-case digits. It reads back as itself, so two
written numbers of any widths are equal only if the numbers are; its length is the asked width as
long as the number fits. No directive is made of hexadecimal digits alone. Which fields and operands
denote a number is said by their digits: hexadecimal ones with an optional plus sign, and decimal
ones with an optional sign for integers of 64 bits.
-/

namespace SicXe.Text

/-- A character that writes a value below sixteen. -/
def IsDigitMark (c : Char) : Prop := ∃ n < 16, c = hexDigit n

/-- What holds of the sixteen written digits holds of every such character. -/
theorem IsDigitMark.elim {p : Char → Prop} (all : ∀ n : Fin 16, p (hexDigit n)) {c : Char}
    (h : IsDigitMark c) : p c := by
  obtain ⟨n, hn, rfl⟩ := h
  exact all ⟨n, hn⟩

/-- A written digit is not blank. -/
theorem IsDigitMark.isBlank {c : Char} (h : IsDigitMark c) : isBlank c = false :=
  h.elim (p := fun c ↦ Text.isBlank c = false) (by decide)

/-- A written digit is a hexadecimal digit. -/
theorem IsDigitMark.isHexDigit {c : Char} (h : IsDigitMark c) : isHexDigit c = true :=
  h.elim (p := fun c ↦ Text.isHexDigit c = true) (by decide)

/-- A written digit is its own upper-case form. -/
theorem IsDigitMark.upper {c : Char} (h : IsDigitMark c) : upper c = [c] := by
  have ha : isAscii c = true := h.elim (p := fun c ↦ isAscii c = true) (by decide)
  have hu : c.toUpper = c := h.elim (p := fun c ↦ c.toUpper = c) (by decide)
  rw [upper_of_isAscii ha, hu]

/-- The digits of a number are written digits. -/
theorem isDigitMark_of_mem_hexDigits {n : Nat} {c : Char} (h : c ∈ hexDigits n) :
    IsDigitMark c := by
  induction n using Nat.strongRecOn with
  | ind n ih =>
    rw [hexDigits] at h
    split at h
    · next hn =>
      rw [List.mem_singleton] at h
      exact ⟨n, hn, h⟩
    · next hn =>
      rcases List.mem_append.mp h with h | h
      · exact ih (n / 16) (by omega) h
      · rw [List.mem_singleton] at h
        exact ⟨n % 16, Nat.mod_lt n (by decide), h⟩

/-- The characters of a written number are written digits. -/
theorem isDigitMark_of_mem_hex {width n : Nat} {c : Char} (h : c ∈ (hex width n).toList) :
    IsDigitMark c := by
  rw [toList_hex] at h
  rcases List.mem_append.mp h with h | h
  · exact ⟨0, by decide, List.eq_of_mem_replicate h⟩
  · exact isDigitMark_of_mem_hexDigits h

/-- A written number has characters. -/
theorem toList_hex_ne_nil (width n : Nat) : (hex width n).toList ≠ [] := by
  rw [toList_hex]
  simp [hexDigits_ne_nil]

/-- A written number is a plain token. -/
theorem isPlain_hex (width n : Nat) : Token.IsPlain (hex width n).toList :=
  ⟨toList_hex_ne_nil width n, fun _ hc ↦ (isDigitMark_of_mem_hex hc).isBlank⟩

/-- A written number holds only written digits, so a character that is none is not in it. -/
theorem not_mem_hex {c : Char} (hc : isHexDigit c = false) (width n : Nat) :
    c ∉ (hex width n).toList := by
  intro h
  rw [(isDigitMark_of_mem_hex h).isHexDigit] at hc
  cases hc

/-- A written number is its own upper-case form. -/
@[simp] theorem uppercase_hex (width n : Nat) : uppercase (hex width n) = hex width n := by
  apply String.toList_inj.mp
  rw [toList_uppercase]
  have all : ∀ c ∈ (hex width n).toList, upper c = [c] :=
    fun c hc ↦ (isDigitMark_of_mem_hex hc).upper
  generalize (hex width n).toList = cs at all
  induction cs with
  | nil => rfl
  | cons c cs ih =>
    rw [List.flatMap_cons, all c List.mem_cons_self,
      ih fun d hd ↦ all d (List.mem_cons_of_mem c hd), List.singleton_append]

/-! ### Reading back -/

private theorem readDigitsFrom?_zeros (k : Nat) (cs : List Char) :
    readDigitsFrom? 16 hexDigit? 0 (List.replicate k '0' ++ cs) =
      readDigitsFrom? 16 hexDigit? 0 cs := by
  induction k with
  | zero => rfl
  | succ k ih =>
    have zero : hexDigit? '0' = some 0 := by decide
    rw [List.replicate_succ, List.cons_append, readDigitsFrom?, zero]
    exact ih

/-- The digits of a written number denote it. -/
theorem readDigits?_hex (width n : Nat) :
    readDigits? 16 hexDigit? (hex width n).toList = some n := by
  have hne := toList_hex_ne_nil width n
  rw [readDigits?, if_neg (by simpa using hne), toList_hex, readDigitsFrom?_zeros,
    readDigitsFrom?_hexDigits]

/-- A written number is read as itself, if it lies below the bound. -/
theorem readHexBelow?_hex {bound n : Nat} (width : Nat) (h : n < bound) :
    readHexBelow? bound (hex width n) = some n := by
  have plus : '+' ∉ (hex width n).toList := not_mem_hex (by decide) width n
  have read := readDigits?_hex width n
  unfold readHexBelow?
  split
  · next cs heq => exact absurd (by rw [heq]; exact List.mem_cons_self) plus
  · simp [read, h]

/-! ### Fields -/

/-- A run of digits in base sixteen, most significant first, and the number that it denotes. -/
def IsHexRun (cs : List Char) (n : Nat) : Prop :=
  cs ≠ [] ∧ ∃ ds : List Nat, cs.map hexDigit? = ds.map some ∧ n = Nat.ofDigits 16 ds.reverse

/-- A hexadecimal field and the number that it denotes: an optional plus sign, then one or more
digits of either case. -/
def IsHexNumber (s : String) (n : Nat) : Prop :=
  IsHexRun s.toList n ∨ ∃ cs, s.toList = '+' :: cs ∧ IsHexRun cs n

section

variable {base : Nat} {digit? : Char → Option Nat} {m n : Nat} {cs : List Char}

private theorem readDigitsFrom?_eq_some_iff :
    readDigitsFrom? base digit? m cs = some n ↔
      ∃ ds : List Nat, cs.map digit? = ds.map some ∧
        n = base ^ cs.length * m + Nat.ofDigits base ds.reverse := by
  induction cs generalizing m with
  | nil =>
    simp only [readDigitsFrom?, Option.some.injEq, List.map_nil, List.length_nil, pow_zero, one_mul,
      List.nil_eq, List.map_eq_nil_iff, exists_eq_left, List.reverse_nil, Nat.ofDigits_nil,
      add_zero]
    exact eq_comm
  | cons c cs ih =>
    rw [readDigitsFrom?, List.map_cons]
    cases hc : digit? c with
    | none =>
      simp only [reduceCtorEq, false_iff, not_exists, not_and]
      intro ds hds
      cases ds <;> simp at hds
    | some d =>
      simp only [ih]
      constructor
      · rintro ⟨ds, hds, rfl⟩
        have hlen : ds.length = cs.length := by simpa using (congrArg List.length hds).symm
        refine ⟨d :: ds, by rw [List.map_cons, hds], ?_⟩
        rw [Nat.ofDigits_reverse_cons, hlen, List.length_cons]
        ring
      · rintro ⟨ds, hds, rfl⟩
        cases ds with
        | nil => simp at hds
        | cons e es =>
          obtain ⟨rfl, hes⟩ : d = e ∧ cs.map digit? = es.map some := by simpa using hds
          have hlen : es.length = cs.length := by simpa using (congrArg List.length hes).symm
          refine ⟨es, hes, ?_⟩
          rw [Nat.ofDigits_reverse_cons, hlen, List.length_cons]
          ring

/-- A run of digits is read as the number that it denotes. -/
theorem readDigits?_eq_some_iff :
    readDigits? base digit? cs = some n ↔
      cs ≠ [] ∧ ∃ ds : List Nat, cs.map digit? = ds.map some ∧ n = Nat.ofDigits base ds.reverse := by
  rw [readDigits?]
  cases cs with
  | nil => simp
  | cons c cs => simp [readDigitsFrom?_eq_some_iff]

end

/-- A run of hexadecimal digits is read as the number that it denotes. -/
theorem readDigits?_iff_isHexRun {n : Nat} {cs : List Char} :
    readDigits? 16 hexDigit? cs = some n ↔ IsHexRun cs n :=
  readDigits?_eq_some_iff

private theorem not_isHexRun_plus {n : Nat} (cs : List Char) : ¬ IsHexRun ('+' :: cs) n := by
  rintro ⟨-, ds, hds, -⟩
  have plus : hexDigit? '+' = none := by decide
  cases ds <;> simp [plus] at hds

/-- A field is read exactly when it denotes a number below the bound, and as that number. -/
theorem readHexBelow?_eq_some_iff {bound n : Nat} {s : String} :
    readHexBelow? bound s = some n ↔ IsHexNumber s n ∧ n < bound := by
  unfold readHexBelow? IsHexNumber
  split
  · next cs heq =>
    simp only [heq, not_isHexRun_plus, false_or, List.cons.injEq, true_and, exists_eq_left',
      Option.filter_eq_some_iff, readDigits?_iff_isHexRun, decide_eq_true_eq]
  · next hplus =>
    have unsigned : ¬ ∃ cs, s.toList = '+' :: cs ∧ IsHexRun cs n := by
      rintro ⟨cs, heq, -⟩
      exact hplus cs heq
    simp only [unsigned, or_false, Option.filter_eq_some_iff, readDigits?_iff_isHexRun,
      decide_eq_true_eq]

/-- A field is refused exactly when it denotes no number below the bound. -/
theorem readHexBelow?_eq_none_iff {bound : Nat} {s : String} :
    readHexBelow? bound s = none ↔ ∀ n < bound, ¬ IsHexNumber s n := by
  rw [Option.eq_none_iff_forall_ne_some]
  simp only [ne_eq, readHexBelow?_eq_some_iff, not_and']

/-- A field denotes at most one number. -/
theorem IsHexNumber.unique {s : String} {m n : Nat} (hm : IsHexNumber s m)
    (hn : IsHexNumber s n) : m = n := by
  have read {k : Nat} (hk : IsHexNumber s k) (hle : k ≤ max m n) :
      readHexBelow? (max m n + 1) s = some k :=
    readHexBelow?_eq_some_iff.mpr ⟨hk, by omega⟩
  exact Option.some.inj ((read hm (by omega)).symm.trans (read hn (by omega)))

/-! ### Operands -/

/-- A run of decimal digits, most significant first, and the number that it denotes. -/
def IsDecimalRun (cs : List Char) (n : Nat) : Prop :=
  cs ≠ [] ∧ ∃ ds : List Nat, (∀ d ∈ ds, d < 10) ∧ cs = ds.map Nat.digitChar ∧
    n = Nat.ofDigits 10 ds.reverse

/-- Decimal digits with an optional sign before them, and the integer that they denote. -/
inductive IsSignedRun : List Char → Int → Prop
  | bare {cs : List Char} {n : Nat} : IsDecimalRun cs n → IsSignedRun cs n
  | plus {cs : List Char} {n : Nat} : IsDecimalRun cs n → IsSignedRun ('+' :: cs) n
  | minus {cs : List Char} {n : Nat} : IsDecimalRun cs n → IsSignedRun ('-' :: cs) (-n)

/-- A decimal operand and the integer of 64 bits that it denotes. -/
def IsDecimal (s : String) (value : Int) : Prop :=
  IsSignedRun s.toList value ∧ -2 ^ 63 ≤ value ∧ value < 2 ^ 63

private theorem decimalDigit?_eq_some_iff {c : Char} {d : Nat} :
    decimalDigit? c = some d ↔ d < 10 ∧ c = Nat.digitChar d := by
  constructor
  · intro h
    unfold decimalDigit? at h
    split at h
    · next hc =>
      obtain rfl := Option.some.inj h
      have hle : c ≤ '9' := by
        simp only [Char.isDigit, Bool.and_eq_true, decide_eq_true_eq] at hc
        exact hc.2
      exact forall_isAscii (p := fun c ↦ c.isDigit = true →
        c.toNat - 48 < 10 ∧ c = Nat.digitChar (c.toNat - 48)) (by decide)
        (isAscii_of_le (d := '9') (by decide) hle) hc
    · cases h
  · rintro ⟨hd, rfl⟩
    interval_cases d <;> decide

private theorem map_decimalDigit?_eq_iff {cs : List Char} {ds : List Nat} :
    cs.map decimalDigit? = ds.map some ↔ (∀ d ∈ ds, d < 10) ∧ cs = ds.map Nat.digitChar := by
  induction ds generalizing cs with
  | nil => simp
  | cons d ds ih =>
    cases cs with
    | nil => simp
    | cons c cs =>
      simp only [List.map_cons, List.cons.injEq, decimalDigit?_eq_some_iff, ih, List.mem_cons,
        forall_eq_or_imp]
      tauto

/-- A run of decimal digits is read as the number that it denotes. -/
theorem readDigits?_iff_isDecimalRun {n : Nat} {cs : List Char} :
    readDigits? 10 decimalDigit? cs = some n ↔ IsDecimalRun cs n := by
  simp only [readDigits?_eq_some_iff, map_decimalDigit?_eq_iff, and_assoc, IsDecimalRun]

private theorem not_isDecimalRun_sign (sign : Char) (h : decimalDigit? sign = none)
    (cs : List Char) (n : Nat) : ¬ IsDecimalRun (sign :: cs) n := by
  rw [← readDigits?_iff_isDecimalRun]
  simp [readDigits?, readDigitsFrom?, h]

/-- An operand is read exactly when it denotes an integer, and as that integer. -/
theorem readDecimal?_eq_some_iff {s : String} {value : Int} :
    readDecimal? s = some value ↔ IsDecimal s value := by
  have hplus := not_isDecimalRun_sign '+' (by decide)
  have hminus := not_isDecimalRun_sign '-' (by decide)
  have hrange : (decide (minInteger ≤ value) && decide (value ≤ maxInteger)) = true ↔
      -2 ^ 63 ≤ value ∧ value < 2 ^ 63 := by
    rw [Bool.and_eq_true, decide_eq_true_iff, decide_eq_true_iff, minInteger, maxInteger]
    omega
  rw [readDecimal?, Option.filter_eq_some_iff, IsDecimal]
  apply and_congr _ hrange
  split
  · next cs heq =>
    simp only [Option.map_eq_some_iff, readDigits?_iff_isDecimalRun, heq]
    constructor
    · rintro ⟨n, hn, rfl⟩
      exact .minus hn
    · intro h
      cases h with
      | bare hn => exact absurd hn (hminus _ _)
      | minus hn => exact ⟨_, hn, rfl⟩
  · next cs heq =>
    simp only [Option.map_eq_some_iff, readDigits?_iff_isDecimalRun, heq]
    constructor
    · rintro ⟨n, hn, rfl⟩
      exact .plus hn
    · intro h
      cases h with
      | bare hn => exact absurd hn (hplus _ _)
      | plus hn => exact ⟨_, hn, rfl⟩
  · next hm hp =>
    simp only [Option.map_eq_some_iff, readDigits?_iff_isDecimalRun]
    generalize s.toList = cs at hm hp
    constructor
    · rintro ⟨n, hn, rfl⟩
      exact .bare hn
    · intro h
      cases h with
      | bare hn => exact ⟨_, hn, rfl⟩
      | plus hn => exact absurd rfl (hp _)
      | minus hn => exact absurd rfl (hm _)

/-! ### Lengths -/

/-- A number below a power of sixteen has at most as many digits as the exponent says. -/
theorem length_hexDigits_le {n k : Nat} (h : n < 16 ^ (k + 1)) :
    (hexDigits n).length ≤ k + 1 := by
  induction k generalizing n with
  | zero =>
    rw [hexDigits, if_pos (by simpa using h)]
    simp
  | succ k ih =>
    rw [hexDigits]
    split
    · simp
    · have hq : n / 16 < 16 ^ (k + 1) := by
        rw [Nat.div_lt_iff_lt_mul (by decide)]
        rw [Nat.pow_succ] at h
        exact h
      have := ih hq
      rw [List.length_append, List.length_singleton]
      omega

/-- A number that fits is written with exactly the asked width. -/
theorem length_hex {width n : Nat} (h : n < 16 ^ (width + 1)) :
    (hex (width + 1) n).toList.length = width + 1 := by
  have := length_hexDigits_le h
  rw [toList_hex, List.length_append, List.length_replicate]
  omega

/-- A written number has at least the asked width. -/
theorem le_length_hex (width n : Nat) : width ≤ (hex width n).toList.length := by
  rw [toList_hex, List.length_append, List.length_replicate]
  omega

/-- A byte is written with two digits. -/
theorem length_hex_byte (b : UInt8) : (hex 2 b.toNat).toList.length = 2 :=
  length_hex b.toNat_lt

end SicXe.Text

namespace SicXe.Directive

/-- The name of every directive has a letter that is no hexadecimal digit. -/
theorem exists_mem_name (d : Directive) : ∃ c ∈ d.name.toList, Text.isHexDigit c = false := by
  rcases d with _ | _ | (_ | _ | _ | _)
  · exact ⟨'S', by decide, by decide⟩
  · exact ⟨'N', by decide, by decide⟩
  · exact ⟨'W', by decide, by decide⟩
  · exact ⟨'Y', by decide, by decide⟩
  · exact ⟨'R', by decide, by decide⟩
  · exact ⟨'R', by decide, by decide⟩

/-- A written number names no directive. -/
theorem ofToken?_hex (width n : Nat) : ofToken? (Text.hex width n) = none := by
  cases h : ofToken? (Text.hex width n) with
  | none => rfl
  | some d =>
    rw [ofToken?_eq_some_iff, Text.uppercase_hex] at h
    obtain ⟨c, hc, hd⟩ := d.exists_mem_name
    rw [← h] at hc
    exact absurd hc (Text.not_mem_hex hd width n)

end SicXe.Directive
