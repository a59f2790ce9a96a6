import SicXe.Literal
import SicXe.Proofs.TokenText
import SicXe.Statement

/-!
# Spelling of names and literals

Labels are identifiers: ASCII letters, digits and underscores. They are plain tokens without
quotes, and so are their upper-case forms. Registers are the names of the numbers from one to
sixteen. A literal is a letter and its contents between quotes, and has the shape of a literal token
as soon as no quote stands between its own two. Facts about ASCII characters are checked one by one.
-/

namespace SicXe.Text

/-- What holds of the 128 characters of ASCII holds of every ASCII character. -/
theorem forall_isAscii {p : Char → Prop} (all : ∀ n : Fin 128, p (Char.ofNat n)) {c : Char}
    (h : isAscii c = true) : p c := by
  have hc := all ⟨c.toNat, by simpa [isAscii] using h⟩
  rwa [Char.ofNat_toNat] at hc

/-- The upper-case form of an ASCII character is an ASCII character. -/
theorem isAscii_toUpper {c : Char} (h : isAscii c = true) : isAscii c.toUpper = true :=
  forall_isAscii (p := fun c ↦ isAscii c.toUpper = true) (by decide) h

/-- An ASCII character in upper case stays as it is. -/
theorem toUpper_toUpper {c : Char} (h : isAscii c = true) : c.toUpper.toUpper = c.toUpper :=
  forall_isAscii (p := fun c ↦ c.toUpper.toUpper = c.toUpper) (by decide) h

/-- Only ASCII characters have an ASCII letter as their simple upper-case form. -/
theorem isAscii_of_toUpper {c d : Char} (hd : isAscii d = true) (h : c.toUpper = d) :
    isAscii c = true := by
  unfold Char.toUpper at h
  split at h
  · next hl =>
    have hz : c.val ≤ 'z'.val := hl.2
    have hn : c.toNat ≤ 122 := UInt32.le_iff_toNat_le.mp hz
    simp only [isAscii, decide_eq_true_eq]
    omega
  · rw [h]
    exact hd

/-- What comes before an ASCII character is one. -/
theorem isAscii_of_le {c d : Char} (hd : isAscii d = true) (h : c ≤ d) : isAscii c = true := by
  have hle : c.toNat ≤ d.toNat := UInt32.le_iff_toNat_le.mp h
  simp only [isAscii, decide_eq_true_eq] at hd ⊢
  omega

/-- A hexadecimal digit is an ASCII character. -/
theorem isAscii_of_isHexDigit {c : Char} (h : isHexDigit c = true) : isAscii c = true := by
  unfold isHexDigit hexDigit? at h
  split at h
  · next hd =>
    simp only [Char.isDigit, Bool.and_eq_true, decide_eq_true_eq] at hd
    exact isAscii_of_le (d := '9') (by decide) hd.2
  · split at h
    · next hd => exact isAscii_of_le (d := 'F') (by decide) hd.2
    · split at h
      · next hd => exact isAscii_of_le (d := 'f') (by decide) hd.2
      · simp at h

/-- A hexadecimal digit in upper case is one as well. -/
theorem isHexDigit_toUpper {c : Char} (h : isHexDigit c = true) : isHexDigit c.toUpper = true :=
  forall_isAscii (p := fun c ↦ isHexDigit c = true → isHexDigit c.toUpper = true) (by decide)
    (isAscii_of_isHexDigit h) h

/-- The upper-case form of ASCII text, character by character. -/
theorem toList_uppercase_of_ascii {s : String} (h : ∀ c ∈ s.toList, isAscii c = true) :
    (uppercase s).toList = s.toList.map Char.toUpper := by
  rw [uppercase_of_ascii h, toList_nameKey]

/-- The upper-case form of ASCII text is ASCII text. -/
theorem isAscii_of_mem_uppercase {s : String} (h : ∀ c ∈ s.toList, isAscii c = true) :
    ∀ c ∈ (uppercase s).toList, isAscii c = true := by
  intro c hc
  rw [toList_uppercase_of_ascii h] at hc
  obtain ⟨d, hd, rfl⟩ := List.mem_map.mp hc
  exact isAscii_toUpper (h d hd)

/-- ASCII text in upper case stays as it is. -/
theorem uppercase_uppercase {s : String} (h : ∀ c ∈ s.toList, isAscii c = true) :
    uppercase (uppercase s) = uppercase s := by
  apply String.toList_inj.mp
  rw [toList_uppercase_of_ascii (isAscii_of_mem_uppercase h), toList_uppercase_of_ascii h,
    List.map_map]
  apply List.map_congr_left
  intro c hc
  exact toUpper_toUpper (h c hc)

/-- An ASCII character takes up one byte, so the length of ASCII text counts its characters. -/
theorem byteLength_of_ascii {s : String} (h : ∀ c ∈ s.toList, isAscii c = true) :
    byteLength s = s.toList.length := by
  unfold byteLength
  generalize s.toList = cs at h
  induction cs with
  | nil => rfl
  | cons c cs ih =>
    have hone : c.utf8Size = 1 :=
      forall_isAscii (p := fun c ↦ c.utf8Size = 1) (by decide) (h c List.mem_cons_self)
    have hrest := ih fun d hd ↦ h d (List.mem_cons_of_mem c hd)
    rw [List.foldr_cons, hone, hrest, List.length_cons, Nat.add_comm]

end SicXe.Text

namespace SicXe

/-! ### Identifiers -/

/-- A character of an identifier after its first one. -/
def isNameCharacter (c : Char) : Bool := c.isAlphanum || c == '_'

/-- A Latin letter followed by Latin letters, digits and underscores. -/
def IsIdentifier (name : String) : Prop :=
  ∃ c cs, name.toList = c :: cs ∧ c.isAlpha = true ∧ ∀ d ∈ cs, isNameCharacter d = true

/-- A Latin letter may stand anywhere in an identifier. -/
theorem isNameCharacter_of_isAlpha {c : Char} (h : c.isAlpha = true) :
    isNameCharacter c = true := by
  simp [isNameCharacter, Char.isAlphanum, h]

/-- The characters of identifiers are ASCII characters. -/
theorem isAscii_of_isNameCharacter {c : Char} (h : isNameCharacter c = true) :
    Text.isAscii c = true := by
  simp only [isNameCharacter, Char.isAlphanum, Char.isAlpha, Char.isUpper, Char.isLower,
    Char.isDigit, Bool.or_eq_true, Bool.and_eq_true, decide_eq_true_eq, beq_iff_eq] at h
  rcases h with ((h | h) | h) | rfl
  · exact Text.isAscii_of_le (d := 'Z') (by decide) h.2
  · exact Text.isAscii_of_le (d := 'z') (by decide) h.2
  · exact Text.isAscii_of_le (d := '9') (by decide) h.2
  · decide

/-- A character of an identifier is neither blank nor a quote. -/
theorem isNameCharacter_separate {c : Char} (h : isNameCharacter c = true) :
    Text.isBlank c = false ∧ c ≠ '"' :=
  Text.forall_isAscii
    (p := fun c ↦ isNameCharacter c = true → Text.isBlank c = false ∧ c ≠ '"') (by decide)
    (isAscii_of_isNameCharacter h) h

/-- The characters of identifiers stay such characters in upper case. -/
theorem isNameCharacter_toUpper {c : Char} (h : isNameCharacter c = true) :
    isNameCharacter c.toUpper = true :=
  Text.forall_isAscii (p := fun c ↦ isNameCharacter c = true → isNameCharacter c.toUpper = true)
    (by decide) (isAscii_of_isNameCharacter h) h

namespace IsIdentifier

variable {name : String}

/-- All characters of an identifier, the first one included, are characters of identifiers. -/
theorem isNameCharacter (h : IsIdentifier name) :
    ∀ c ∈ name.toList, isNameCharacter c = true := by
  obtain ⟨c, cs, he, hc, hcs⟩ := h
  intro d hd
  rw [he] at hd
  rcases List.mem_cons.mp hd with rfl | hd
  · exact isNameCharacter_of_isAlpha hc
  · exact hcs d hd

/-- Identifiers are ASCII text. -/
theorem isAscii (h : IsIdentifier name) : ∀ c ∈ name.toList, Text.isAscii c = true :=
  fun c hc ↦ isAscii_of_isNameCharacter (h.isNameCharacter c hc)

/-- An identifier is a plain token. -/
theorem isPlain (h : IsIdentifier name) : Token.IsPlain name.toList := by
  constructor
  · obtain ⟨c, cs, he, -, -⟩ := h
    simp [he]
  · intro c hc
    exact (isNameCharacter_separate (h.isNameCharacter c hc)).1

/-- An identifier holds no quote. -/
theorem quote_not_mem (h : IsIdentifier name) : '"' ∉ name.toList :=
  fun hq ↦ (isNameCharacter_separate (h.isNameCharacter '"' hq)).2 rfl

/-- The upper-case form of an identifier is an identifier. -/
theorem uppercase (h : IsIdentifier name) : IsIdentifier (Text.uppercase name) := by
  have ha := h.isAscii
  obtain ⟨c, cs, he, hc, hcs⟩ := h
  refine ⟨c.toUpper, cs.map Char.toUpper, ?_, ?_, ?_⟩
  · rw [Text.toList_uppercase_of_ascii ha, he, List.map_cons]
  · exact Text.forall_isAscii (p := fun c ↦ c.isAlpha = true → c.toUpper.isAlpha = true)
      (by decide) (isAscii_of_isNameCharacter (isNameCharacter_of_isAlpha hc)) hc
  · intro d hd
    obtain ⟨e, hm, rfl⟩ := List.mem_map.mp hd
    exact isNameCharacter_toUpper (hcs e hm)

end IsIdentifier

/-- A label is an identifier. -/
theorem Grammar.isIdentifier_of_isLabel {g : Grammar} {token : String}
    (h : g.isLabel token = true) : IsIdentifier token := by
  unfold isLabel at h
  split at h
  · simp at h
  · next c cs heq =>
    simp only [Bool.and_eq_true, List.all_eq_true] at h
    obtain ⟨⟨⟨⟨hc, -⟩, hcs⟩, -⟩, -⟩ := h
    exact ⟨c, cs, heq, hc, hcs⟩

/-! ### Registers -/

namespace Register

variable {token : String} {n : Nat}

/-- The register of a number. -/
def name (n : Nat) : String :=
  "R" ++ toString n

/-- Every register is named by its number. -/
theorem number?_name (h : 1 ≤ n ∧ n ≤ 16) : number? (name n) = some n := by
  obtain ⟨hlow, hhigh⟩ := h
  interval_cases n <;> decide +kernel

/-- A token that names a register is written as its number is. -/
theorem eq_name_of_number? (h : number? token = some n) : (1 ≤ n ∧ n ≤ 16) ∧ token = name n := by
  -- The last character is one of a few digits, and each of them can be tried.
  unfold number? at h
  split at h
  · next c heq =>
    split at h
    · next hc =>
      obtain rfl := Option.some.inj h
      have hdigit := Text.forall_isAscii (p := fun c ↦ '1' ≤ c ∧ c ≤ '9' →
        (1 ≤ c.toNat - 48 ∧ c.toNat - 48 ≤ 16) ∧ ['R', c] = (name (c.toNat - 48)).toList)
        (by decide +kernel) (Text.isAscii_of_le (d := '9') (by decide) hc.2) hc
      exact ⟨hdigit.1, String.toList_inj.mp (heq.trans hdigit.2)⟩
    · cases h
  · next c heq =>
    split at h
    · next hc =>
      obtain rfl := Option.some.inj h
      have hdigit := Text.forall_isAscii (p := fun c ↦ '0' ≤ c ∧ c ≤ '6' →
        (1 ≤ 10 + (c.toNat - 48) ∧ 10 + (c.toNat - 48) ≤ 16) ∧
          ['R', '1', c] = (name (10 + (c.toNat - 48))).toList)
        (by decide +kernel) (Text.isAscii_of_le (d := '6') (by decide) hc.2) hc
      exact ⟨hdigit.1, String.toList_inj.mp (heq.trans hdigit.2)⟩
    · cases h
  · cases h

/-- A token names a register exactly when it is the name of its number. -/
theorem number?_eq_some_iff : number? token = some n ↔ (1 ≤ n ∧ n ≤ 16) ∧ token = name n := by
  constructor
  · exact eq_name_of_number?
  · rintro ⟨hn, rfl⟩
    exact number?_name hn

/-- A token is a register exactly when it is the name of a number from one to sixteen. -/
theorem isName_iff : isName token = true ↔ ∃ n, (1 ≤ n ∧ n ≤ 16) ∧ token = name n := by
  rw [isName, Option.isSome_iff_exists]
  simp only [number?_eq_some_iff]

/-- A register is spelled like an identifier. -/
theorem isIdentifier_of_isName (h : isName token = true) : IsIdentifier token := by
  obtain ⟨n, ⟨hlow, hhigh⟩, rfl⟩ := isName_iff.mp h
  have hdigits : (toString n).toList.all isNameCharacter = true := by
    interval_cases n <;> decide +kernel
  exact ⟨'R', (toString n).toList, by simp [name], by decide, List.all_eq_true.mp hdigits⟩

end Register

/-! ### Literals -/

namespace Literal

/-- A token that is a letter of either case and then text between quotes. -/
def IsQuoted (mark : Char) (token : String) (cs : List Char) : Prop :=
  ∃ letter, (letter = mark ∨ letter = mark.toLower) ∧
    token.toList = letter :: '"' :: (cs ++ ['"'])

/-- A character literal has at least one character, and all of them are ASCII characters. -/
def IsCharacters (token : String) (cs : List Char) : Prop :=
  IsQuoted 'C' token cs ∧ cs ≠ [] ∧ ∀ c ∈ cs, Text.isAscii c = true

/-- A hexadecimal literal has an even number of hexadecimal digits that is not zero. -/
def IsDigits (token : String) (ds : List Char) : Prop :=
  IsQuoted 'X' token ds ∧ (ds ≠ [] ∧ ds.length % 2 = 0) ∧ ∀ d ∈ ds, Text.isHexDigit d = true

/-- The characters of a character literal stand between its quotes; there is at least one, and all
are ASCII characters. -/
theorem characters?_eq_some_iff {token : String} {cs : List Char} :
    characters? token = some cs ↔
      contents? 'C' token = some cs ∧ cs ≠ [] ∧ ∀ c ∈ cs, Text.isAscii c = true := by
  simp [characters?, Option.filter_eq_some_iff]

/-- The digits of a hexadecimal literal stand between its quotes; their number is even and not
zero. -/
theorem digits?_eq_some_iff {token : String} {ds : List Char} :
    digits? token = some ds ↔
      contents? 'X' token = some ds ∧ (ds ≠ [] ∧ ds.length % 2 = 0) ∧
        ∀ d ∈ ds, Text.isHexDigit d = true := by
  simp [digits?, Option.filter_eq_some_iff, and_assoc]

private theorem toUpper_eq_iff {letter mark : Char} (hm : mark = 'C' ∨ mark = 'X') :
    letter.toUpper = mark ↔ letter = mark ∨ letter = mark.toLower := by
  constructor
  · intro h
    have ha : Text.isAscii letter = true := by
      apply Text.isAscii_of_toUpper _ h
      rcases hm with rfl | rfl <;> decide
    have all := Text.forall_isAscii (p := fun c ↦ c.toUpper = 'C' ∨ c.toUpper = 'X' →
      c = c.toUpper ∨ c = c.toUpper.toLower) (by decide) ha
    rw [h] at all
    exact all hm
  · rintro (rfl | rfl)
    · rcases hm with rfl | rfl <;> decide
    · rcases hm with rfl | rfl <;> decide

private theorem contents?_eq_some_iff {mark : Char} {token : String} {cs : List Char}
    (hm : mark = 'C' ∨ mark = 'X') : contents? mark token = some cs ↔ IsQuoted mark token cs := by
  constructor
  · intro h
    obtain ⟨letter, hl, he⟩ := toList_eq_of_contents? h
    exact ⟨letter, (toUpper_eq_iff hm).mp hl, he⟩
  · rintro ⟨letter, hl, he⟩
    exact contents?_of_toList_eq ((toUpper_eq_iff hm).mpr hl) he

/-- A token has the characters of a literal exactly when it is spelled as one. -/
theorem characters?_iff_isCharacters {token : String} {cs : List Char} :
    characters? token = some cs ↔ IsCharacters token cs := by
  rw [characters?_eq_some_iff, contents?_eq_some_iff (Or.inl rfl), IsCharacters]

/-- A token has the digits of a literal exactly when it is spelled as one. -/
theorem digits?_iff_isDigits {token : String} {ds : List Char} :
    digits? token = some ds ↔ IsDigits token ds := by
  rw [digits?_eq_some_iff, contents?_eq_some_iff (Or.inr rfl), IsDigits]

/-- No token is a literal of both kinds. -/
theorem characters?_eq_none_of_digits? {token : String} {ds : List Char}
    (h : digits? token = some ds) : characters? token = none := by
  rw [Option.eq_none_iff_forall_ne_some]
  intro cs hc
  obtain ⟨letter, hl, he⟩ := toList_eq_of_contents? (digits?_eq_some_iff.mp h).1
  obtain ⟨other, ho, he'⟩ := toList_eq_of_contents? (characters?_eq_some_iff.mp hc).1
  have hsame : letter = other := (List.cons.inj (he.symm.trans he')).1
  rw [hsame, ho] at hl
  exact absurd hl (by decide)

/-- A character literal is no hexadecimal literal. -/
theorem digits?_eq_none_of_characters? {token : String} {cs : List Char}
    (h : characters? token = some cs) : digits? token = none := by
  rw [Option.eq_none_iff_forall_ne_some]
  intro ds hd
  rw [characters?_eq_none_of_digits? hd] at h
  cases h

/-- A token of ASCII contents is as long as its contents with a letter and two quotes. -/
theorem byteLength_of_contents? {mark : Char} {token : String} {cs : List Char}
    (hm : Text.isAscii mark = true) (h : contents? mark token = some cs)
    (ha : ∀ c ∈ cs, Text.isAscii c = true) : Text.byteLength token = cs.length + 3 := by
  obtain ⟨letter, hl, he⟩ := toList_eq_of_contents? h
  have hletter : Text.isAscii letter = true := Text.isAscii_of_toUpper hm hl
  have htoken : ∀ c ∈ token.toList, Text.isAscii c = true := by
    rw [he]
    simp only [List.mem_cons, List.mem_append, List.not_mem_nil, or_false]
    rintro c (rfl | rfl | hc | rfl)
    · exact hletter
    · decide
    · exact ha c hc
    · decide
  rw [Text.byteLength_of_ascii htoken, he]
  simp only [List.length_cons, List.length_append, List.length_nil]

/-- A character literal is as long as its characters with a letter and two quotes. -/
theorem byteLength_of_characters? {token : String} {cs : List Char}
    (h : characters? token = some cs) : Text.byteLength token = cs.length + 3 := by
  obtain ⟨hc, -, ha⟩ := characters?_eq_some_iff.mp h
  exact byteLength_of_contents? (by decide) hc ha

/-- A hexadecimal literal is as long as its digits with a letter and two quotes. -/
theorem byteLength_of_digits? {token : String} {ds : List Char} (h : digits? token = some ds) :
    Text.byteLength token = ds.length + 3 := by
  obtain ⟨hc, -, hx⟩ := digits?_eq_some_iff.mp h
  exact byteLength_of_contents? (by decide) hc fun d hd ↦ Text.isAscii_of_isHexDigit (hx d hd)

/-- The digits of a hexadecimal literal are put in upper case one by one. -/
theorem uppercase_ofList_digits {token : String} {ds : List Char}
    (h : digits? token = some ds) :
    Text.uppercase (String.ofList ds) = String.ofList (ds.map Char.toUpper) := by
  have hhex := (digits?_eq_some_iff.mp h).2.2
  apply String.toList_inj.mp
  rw [Text.toList_uppercase_of_ascii, String.toList_ofList, String.toList_ofList]
  intro d hd
  rw [String.toList_ofList] at hd
  exact Text.isAscii_of_isHexDigit (hhex d hd)

/-- The letter of a literal is one that opens a literal token. -/
theorem opensLiteral_of_toUpper {letter mark : Char} (hm : mark = 'C' ∨ mark = 'X')
    (h : letter.toUpper = mark) : Token.opensLiteral letter = true := by
  have ha : Text.isAscii letter = true := by
    apply Text.isAscii_of_toUpper _ h
    rcases hm with rfl | rfl <;> decide
  have all := Text.forall_isAscii (p := fun c ↦ c.toUpper = 'C' ∨ c.toUpper = 'X' →
    Token.opensLiteral c = true) (by decide) ha
  rw [h] at all
  exact all hm

/-- A token with a literal's contents is a literal token, if they hold no quote. -/
theorem isLiteral_of_contents? {mark : Char} {token : String} {cs : List Char}
    (hm : mark = 'C' ∨ mark = 'X') (h : contents? mark token = some cs) (hq : '"' ∉ cs) :
    Token.IsLiteral token.toList := by
  obtain ⟨letter, hl, ht⟩ := toList_eq_of_contents? h
  exact ⟨letter, cs, opensLiteral_of_toUpper hm hl, hq, ht⟩

/-- A token of a spaced line that begins with a letter and a quote and ends in another quote has
no quote between them. -/
theorem quote_not_mem_of_spaced {mark : Char} {token : String} {cs : List Char}
    {ts : List (List Char)} (hm : mark = 'C' ∨ mark = 'X') (h : contents? mark token = some cs)
    (hs : Token.Spaced ts) (ht : token.toList ∈ ts) : '"' ∉ cs := by
  obtain ⟨letter, hl, he⟩ := toList_eq_of_contents? h
  induction ts with
  | nil => simp at ht
  | cons t ts ih =>
    obtain ⟨hfirst, hrest⟩ := hs
    rcases List.mem_cons.mp ht with rfl | ht
    · rcases hfirst with ⟨letter', body, -, hb, he'⟩ | ⟨-, hopen⟩
      · rw [he] at he'
        simp only [List.cons.injEq, true_and, List.append_cancel_right_eq] at he'
        rw [he'.2]
        exact hb
      · -- A plain token that opens a literal has no second quote, but this one ends in a quote.
        have := (hopen ⟨letter, cs ++ ['"'], opensLiteral_of_toUpper hm hl, he⟩).1
        rw [he] at this
        simp at this
    · exact ih hrest ht

/-- The digits of a hexadecimal literal in upper case. -/
theorem digits?_uppercase {token : String} {ds : List Char} (h : digits? token = some ds) :
    digits? (Text.uppercase token) = some (ds.map Char.toUpper) := by
  obtain ⟨hc, ⟨hne, heven⟩, hd⟩ := digits?_eq_some_iff.mp h
  obtain ⟨letter, hl, ht⟩ := toList_eq_of_contents? hc
  have ha : ∀ c ∈ token.toList, Text.isAscii c = true := by
    intro c hmem
    rw [ht] at hmem
    simp only [List.mem_cons, List.mem_append, List.not_mem_nil, or_false] at hmem
    rcases hmem with rfl | rfl | hmem | rfl
    · exact Text.isAscii_of_toUpper (by decide) hl
    · decide
    · exact Text.isAscii_of_isHexDigit (hd c hmem)
    · decide
  apply digits?_eq_some_iff.mpr
  refine ⟨?_, ⟨by simpa using hne, by simpa using heven⟩, ?_⟩
  · apply contents?_of_toList_eq (show Char.toUpper 'X' = 'X' by decide)
    rw [Text.toList_uppercase_of_ascii ha, ht]
    simp only [List.map_cons, List.map_append, List.map_nil, hl]
    rfl
  · intro d hmem
    obtain ⟨e, he, rfl⟩ := List.mem_map.mp hmem
    exact Text.isHexDigit_toUpper (hd e he)

end Literal

end SicXe
