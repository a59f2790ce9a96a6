import SicXe.Proofs.Accounting
import SicXe.Proofs.Decoding

/-!
# Literals and registers by bytes

The contents of a literal are all of its token but the first two bytes and the last one, and the
number of a register is all of it but the first byte. A token that looks like a literal at both ends
can be cut there: the offsets lie in the token, in order, and on boundaries of characters. What is
cut out is what the readers of literals and registers give. No token is read in two ways, so the
literal of a byte directive is read back from a listing as a literal of its kind and length.
-/

namespace SicXe

/-! ### Byte offsets -/

namespace Text

/-- The text between two byte offsets. There is none unless both are offsets of characters or of the
end of the text, in this order. -/
def slice? (s : String) (low high : Nat) : Option String :=
  if h : String.Pos.Raw.IsValid s ⟨low⟩ ∧ String.Pos.Raw.IsValid s ⟨high⟩ ∧ low ≤ high then
    some (s.slice ⟨⟨low⟩, h.1⟩ ⟨⟨high⟩, h.2.1⟩ h.2.2).copy
  else none

/-- The bytes of a text are those of its characters. -/
theorem byteLength_eq (s : String) : byteLength s = s.utf8ByteSize := by
  rw [← String.utf8Len_toList, byteLength]
  induction s.toList with
  | nil => rfl
  | cons c cs ih => rw [List.foldr_cons, ih, String.utf8Len_cons, Nat.add_comm]

/-- A text is as long as its parts. -/
theorem byteLength_append (s t : String) : byteLength (s ++ t) = byteLength s + byteLength t := by
  simp only [byteLength_eq, String.utf8ByteSize_append]

/-- A text begins at a byte offset when what stands before it has as many bytes. -/
theorem rawEndPos_eq (s : String) : s.rawEndPos = ⟨byteLength s⟩ := by
  rw [byteLength_eq]
  rfl

/-- The middle part of a text stands between the offsets at which it begins and ends. -/
theorem slice?_append (before middle after : String) :
    slice? (before ++ middle ++ after) (byteLength before)
      (byteLength before + byteLength middle) = some middle := by
  have hlow : String.Pos.Raw.IsValid (before ++ middle ++ after) ⟨byteLength before⟩ :=
    String.Pos.Raw.isValid_iff_exists_append.mpr
      ⟨before, middle ++ after, String.append_assoc, (rawEndPos_eq before).symm⟩
  have hhigh : String.Pos.Raw.IsValid (before ++ middle ++ after)
      ⟨byteLength before + byteLength middle⟩ := by
    rw [← byteLength_append]
    exact String.Pos.Raw.isValid_iff_exists_append.mpr
      ⟨before ++ middle, after, rfl, (rawEndPos_eq (before ++ middle)).symm⟩
  have hend : (⟨byteLength before + byteLength middle⟩ : String.Pos.Raw) =
      (before ++ middle).rawEndPos := by
    rw [rawEndPos_eq, byteLength_append]
  have hsplits : ∃ hle : String.Pos.mk _ hlow ≤ String.Pos.mk _ hhigh,
      (String.slice _ (.mk _ hlow) (.mk _ hhigh) hle).copy = middle :=
    String.copy_slice_eq_iff_splits.mpr
      ⟨before, after, ⟨String.append_assoc, (rawEndPos_eq before).symm⟩, ⟨rfl, hend⟩⟩
  obtain ⟨hle, hcopy⟩ := hsplits
  rw [slice?, dif_pos ⟨hlow, hhigh, hle⟩, hcopy]

end Text

/-! ### Literals -/

namespace Literal

open Text (byteLength slice?)

variable {mark : Char} {token : String} {cs ds : List Char}

/-- A token that looks like a literal at both ends and has a least number of bytes: it begins with a
letter of either case and a quote and ends in a quote. -/
def LooksQuoted (mark : Char) (least : Nat) (token : String) : Prop :=
  least ≤ byteLength token ∧
    (∃ letter rest, (letter = mark ∨ letter = mark.toLower) ∧
      token.toList = letter :: '"' :: rest) ∧
    token.toList.getLast? = some '"'

/-- A token without its first two bytes and its last one. -/
def cutOut? (token : String) : Option String :=
  slice? token 2 (byteLength token - 1)

/-- ASCII text has a byte for each of its characters. -/
theorem byteLength_ofList (h : ∀ c ∈ cs, Text.isAscii c = true) :
    byteLength (String.ofList cs) = cs.length := by
  rw [Text.byteLength_of_ascii (by simpa using h), String.toList_ofList]

/-- A literal is two bytes, its contents and a quote. -/
theorem IsQuoted.exists_opening (hm : mark = 'C' ∨ mark = 'X') (h : IsQuoted mark token cs) :
    ∃ opening, byteLength opening = 2 ∧ token = opening ++ String.ofList cs ++ "\"" := by
  obtain ⟨letter, hl, he⟩ := h
  refine ⟨String.ofList [letter, '"'], ?_, ?_⟩
  · rcases hm with rfl | rfl <;> rcases hl with rfl | rfl <;> decide
  · apply String.toList_inj.mp
    simp [he]

/-- A literal has three bytes around its contents. -/
theorem IsQuoted.byteLength_eq (hm : mark = 'C' ∨ mark = 'X') (h : IsQuoted mark token cs) :
    byteLength token = byteLength (String.ofList cs) + 3 := by
  have hquote : byteLength "\"" = 1 := by decide
  obtain ⟨opening, hopening, rfl⟩ := h.exists_opening hm
  rw [Text.byteLength_append, Text.byteLength_append, hopening, hquote]
  omega

/-- The contents of a literal can be cut out of it. -/
theorem IsQuoted.cutOut?_eq (hm : mark = 'C' ∨ mark = 'X') (h : IsQuoted mark token cs) :
    cutOut? token = some (String.ofList cs) := by
  have hlength := h.byteLength_eq hm
  obtain ⟨opening, hopening, rfl⟩ := h.exists_opening hm
  have hcut := Text.slice?_append opening (String.ofList cs) "\""
  have hend : byteLength (opening ++ String.ofList cs ++ "\"") - 1 =
      2 + byteLength (String.ofList cs) := by omega
  rwa [hopening, ← hend] at hcut

/-- A literal with ASCII contents is ASCII text. -/
theorem IsQuoted.isAscii (hm : mark = 'C' ∨ mark = 'X') (h : IsQuoted mark token cs)
    (ha : ∀ c ∈ cs, Text.isAscii c = true) : ∀ c ∈ token.toList, Text.isAscii c = true := by
  obtain ⟨letter, hl, he⟩ := h
  have hletter : Text.isAscii letter = true := by
    rcases hm with rfl | rfl <;> rcases hl with rfl | rfl <;> decide
  have hquote : Text.isAscii '"' = true := by decide
  simpa [he, or_imp, forall_and, hletter, hquote] using ha

/-- A token of three bytes or more that looks like a literal at both ends has contents, since the
quote at its end is not the one at its beginning. -/
theorem looksQuoted_iff {least : Nat} (hm : mark = 'C' ∨ mark = 'X') (hleast : 3 ≤ least) :
    LooksQuoted mark least token ↔ least ≤ byteLength token ∧ ∃ cs, IsQuoted mark token cs := by
  apply and_congr_right
  intro hlong
  constructor
  · rintro ⟨⟨letter, rest, hl, he⟩, hlast⟩
    rcases List.eq_nil_or_concat' rest with rfl | ⟨cs, last, rfl⟩
    · -- the letter and one quote are two bytes
      have hshort : byteLength token = 2 := by
        rw [← String.ofList_toList (s := token), he]
        rcases hm with rfl | rfl <;> rcases hl with rfl | rfl <;> decide
      omega
    · rw [he, ← List.cons_append, ← List.cons_append, List.getLast?_concat] at hlast
      rw [Option.some.inj hlast] at he
      exact ⟨cs, letter, hl, he⟩
  · rintro ⟨cs, letter, hl, he⟩
    refine ⟨⟨letter, _, hl, he⟩, ?_⟩
    rw [he, ← List.cons_append, ← List.cons_append, List.getLast?_concat]

/-- A token that looks like a literal can be cut between its quotes. -/
theorem exists_cutOut? {least : Nat} (hm : mark = 'C' ∨ mark = 'X') (hleast : 3 ≤ least)
    (h : LooksQuoted mark least token) : ∃ contents, cutOut? token = some contents := by
  obtain ⟨-, cs, hcs⟩ := (looksQuoted_iff hm hleast).mp h
  exact ⟨_, hcs.cutOut?_eq hm⟩

/-- What is cut out of a token that looks like a literal stands between its quotes. -/
theorem LooksQuoted.isQuoted {least : Nat} (h : LooksQuoted mark least token)
    (hm : mark = 'C' ∨ mark = 'X') (hleast : 3 ≤ least)
    (hcut : cutOut? token = some (String.ofList cs)) : IsQuoted mark token cs := by
  obtain ⟨-, contents, hcontents⟩ := (looksQuoted_iff hm hleast).mp h
  have hsame := hcut.symm.trans (hcontents.cutOut?_eq hm)
  rwa [String.ofList_inj.mp (Option.some.inj hsame)]

/-- The characters of a literal are cut out of an ASCII token of four bytes or more. -/
theorem characters?_iff_cutOut? :
    characters? token = some cs ↔
      LooksQuoted 'C' 4 token ∧ (∀ c ∈ token.toList, Text.isAscii c = true) ∧
        cutOut? token = some (String.ofList cs) := by
  rw [characters?_iff_isCharacters]
  constructor
  · rintro ⟨hquoted, hne, hascii⟩
    have hpos := List.length_pos_iff.mpr hne
    have hlong : 4 ≤ byteLength token := by
      rw [hquoted.byteLength_eq (.inl rfl), byteLength_ofList hascii]
      omega
    exact ⟨(looksQuoted_iff (.inl rfl) (by decide)).mpr ⟨hlong, cs, hquoted⟩,
      hquoted.isAscii (.inl rfl) hascii, hquoted.cutOut?_eq (.inl rfl)⟩
  · rintro ⟨hlooks, hascii, hcut⟩
    have hquoted := hlooks.isQuoted (.inl rfl) (by decide) hcut
    refine ⟨hquoted, ?_, ?_⟩
    · rintro rfl
      have hlong := hlooks.1
      rw [hquoted.byteLength_eq (.inl rfl)] at hlong
      exact absurd hlong (by decide)
    · intro c hc
      obtain ⟨letter, -, he⟩ := hquoted
      apply hascii
      simp [he, hc]

/-- The digits of a literal are cut out of a token of three bytes or more; they are an even number
of bytes, and at least one. -/
theorem digits?_iff_cutOut? :
    digits? token = some ds ↔
      LooksQuoted 'X' 3 token ∧ cutOut? token = some (String.ofList ds) ∧
        byteLength (String.ofList ds) ≠ 0 ∧ byteLength (String.ofList ds) % 2 = 0 ∧
        ∀ d ∈ ds, Text.isHexDigit d = true := by
  rw [digits?_iff_isDigits]
  constructor
  · rintro ⟨hquoted, ⟨hne, heven⟩, hhex⟩
    have hpos := List.length_pos_iff.mpr hne
    have hlong : 3 ≤ byteLength token := by
      rw [hquoted.byteLength_eq (.inr rfl)]
      omega
    rw [byteLength_ofList fun d hd ↦ Text.isAscii_of_isHexDigit (hhex d hd)]
    exact ⟨(looksQuoted_iff (.inr rfl) (by decide)).mpr ⟨hlong, ds, hquoted⟩,
      hquoted.cutOut?_eq (.inr rfl), by omega, heven, hhex⟩
  · rintro ⟨hlooks, hcut, hne, heven, hhex⟩
    rw [byteLength_ofList fun d hd ↦ Text.isAscii_of_isHexDigit (hhex d hd)] at hne heven
    exact ⟨hlooks.isQuoted (.inr rfl) (by decide) hcut,
      ⟨List.length_pos_iff.mp (by omega), heven⟩, hhex⟩

end Literal

/-! ### Registers -/

namespace Register

/-- The number of a register can be cut out of its name. -/
theorem slice?_of_number? {token : String} {n : Nat} (h : number? token = some n) :
    Text.slice? token 1 (Text.byteLength token) = some (toString n) := by
  obtain ⟨-, rfl⟩ := eq_name_of_number? h
  have hcut := Text.slice?_append "R" (toString n) ""
  have hletter : Text.byteLength "R" = 1 := by decide
  rw [String.append_empty, hletter] at hcut
  rwa [name, Text.byteLength_append, hletter]

end Register

/-! ### Literals in a listing -/

namespace Literal

open Listing (Content Line literalText?)
open Text (hex)

variable {token literal payload : String} {cs ds : List Char} {length : Nat}

/-- A literal is no byte in hexadecimal digits, since it has a quote. -/
theorem IsQuoted.hexByte? {mark : Char} (h : IsQuoted mark token cs) :
    Encoding.hexByte? token = none := by
  obtain ⟨letter, -, he⟩ := h
  apply Encoding.hexByte?_literal
  simp [he]

/-- The byte directive takes a character literal as it is written. -/
theorem byteContent_of_characters? (h : characters? token = some cs) :
    Placement.byteContent token = .ok (.literal token) := by
  have hnumber := (characters?_iff_isCharacters.mp h).1.readDecimal? (.inl rfl)
  simp [Placement.byteContent, hnumber, h]

/-- The byte directive takes a hexadecimal literal in upper case. -/
theorem byteContent_of_digits? (h : digits? token = some ds) :
    Placement.byteContent token = .ok (.literal (Text.uppercase token)) := by
  have hnumber := (digits?_iff_isDigits.mp h).1.readDecimal? (.inr rfl)
  simp [Placement.byteContent, hnumber, h, characters?_eq_none_of_digits? h]

/-- A literal in a listing is encoded with this length and payload: it takes up as many bytes, its
record at every address has the payload and the length as far as the field holds it, and wherever
the literal can be placed, the record has the whole length. -/
structure EncodesTo (literal : String) (length : Nat) (payload : String) : Prop where
  size : (Content.literal literal).size = length
  record : ∀ symbols address,
    Encoding.lineRecord symbols (Line.body address (.literal literal)).tokens =
      .ok (.text (hex 6 address) (Encoding.lengthField length) payload)
  placed : ∀ (options : Options) (layout next : Layout) (line : Line) (symbols : SymbolTable),
    Placement.placeContent options.limit layout (.literal literal) = .ok (line, next) →
      Encoding.lineRecord symbols line.tokens =
        .ok (.text (hex 6 layout.locationCounter) length payload)

/-- A literal of the byte directive is encoded as its text. -/
theorem encodesTo_of_byteContent (h : Placement.byteContent token = .ok (.literal literal))
    (ht : literalText? literal = some (length, payload)) : EncodesTo literal length payload := by
  have hsize : (Content.literal literal).size = length := Listing.length_literalText? ht
  have hrecord : ∀ symbols address,
      Encoding.lineRecord symbols (Line.body address (.literal literal)).tokens =
        .ok (.text (hex 6 address) (Encoding.lengthField length) payload) := by
    intro symbols address
    refine (Encoding.lineRecord_storage symbols address .byte literal).trans ?_
    rw [Encoding.storageRecord,
      Encoding.byteString_literal (Placement.byteContent_wellFormed h), ht]
    rfl
  refine ⟨hsize, hrecord, ?_⟩
  intro options layout next line symbols hplace
  obtain ⟨hfit, rfl, -⟩ := Placement.placeContent_eq_ok_iff.mp hplace
  have hlength : length < UInt32.size := by
    have := options.limit_lt
    omega
  rw [hrecord, Encoding.lengthField_of_lt hlength]

/-- A character literal is encoded as the bytes of its characters. -/
theorem encodesTo_of_characters? (h : characters? token = some cs) :
    EncodesTo token cs.length
      (String.ofList (cs.flatMap fun c ↦ (hex 2 c.toNat).toList)) := by
  apply encodesTo_of_byteContent (byteContent_of_characters? h)
  rw [literalText?, h]

/-- A hexadecimal literal is encoded as its digits in upper case. -/
theorem encodesTo_of_digits? (h : digits? token = some ds) :
    EncodesTo (Text.uppercase token) ds.length (Text.uppercase (String.ofList ds)) := by
  apply encodesTo_of_byteContent (byteContent_of_digits? h)
  have hu := digits?_uppercase h
  have hhex := (digits?_eq_some_iff.mp h).2.2
  have hascii : ∀ d ∈ (String.ofList ds).toList, Text.isAscii d = true := by
    rw [String.toList_ofList]
    exact fun d hd ↦ Text.isAscii_of_isHexDigit (hhex d hd)
  rw [literalText?, characters?_eq_none_of_digits? hu, hu, Option.map_some, List.length_map,
    ← uppercase_ofList_digits h, Text.uppercase_uppercase hascii]

/-- What a byte directive puts into a listing is a number or one of the two literals. -/
theorem exists_of_byteContent (h : Placement.byteContent token = .ok (.literal literal)) :
    (∃ cs, characters? token = some cs) ∨ ∃ ds, digits? token = some ds := by
  rcases Placement.byteContent_eq_ok h with ⟨value, hc⟩ | ⟨cs, hcs, -⟩ | ⟨ds, hds, -⟩
  · cases hc
  · exact .inl ⟨cs, hcs⟩
  · exact .inr ⟨ds, hds⟩

/-- The readers of literals and registers by bytes. A token that passes the test before a cut can be
cut there, and what is cut out is what is read. -/
structure ReadByBytes (token : String) : Prop where
  charactersCut : LooksQuoted 'C' 4 token → ∃ contents, cutOut? token = some contents
  digitsCut : LooksQuoted 'X' 3 token → ∃ contents, cutOut? token = some contents
  registerCut : Register.isName token = true →
    ∃ digits, Text.slice? token 1 (Text.byteLength token) = some digits
  characters : ∀ cs, characters? token = some cs ↔
    LooksQuoted 'C' 4 token ∧ (∀ c ∈ token.toList, Text.isAscii c = true) ∧
      cutOut? token = some (String.ofList cs)
  digits : ∀ ds, digits? token = some ds ↔
    LooksQuoted 'X' 3 token ∧ cutOut? token = some (String.ofList ds) ∧
      Text.byteLength (String.ofList ds) ≠ 0 ∧ Text.byteLength (String.ofList ds) % 2 = 0 ∧
      ∀ d ∈ ds, Text.isHexDigit d = true
  register : ∀ n, Register.number? token = some n →
    Text.slice? token 1 (Text.byteLength token) = some (toString n)

/-- Every token is read by its bytes. -/
theorem readByBytes (token : String) : ReadByBytes token where
  charactersCut := exists_cutOut? (.inl rfl) (by decide)
  digitsCut := exists_cutOut? (.inr rfl) (by decide)
  registerCut := by
    intro h
    obtain ⟨n, hn⟩ := Option.isSome_iff_exists.mp h
    exact ⟨_, Register.slice?_of_number? hn⟩
  characters _ := characters?_iff_cutOut?
  digits _ := digits?_iff_cutOut?
  register _ := Register.slice?_of_number?

/-- The readers of literals and registers accept exactly what is spelled as one, and can cut it out
of the token by bytes. A literal is not a literal of the other kind, a decimal number or a byte in
hexadecimal digits. A byte directive puts a character literal as it is and a hexadecimal literal in
upper case into the listing, where it is read back as a literal of the same kind and encoded with as
many bytes as it takes up; and it puts no other literals there. -/
theorem literals_read_exactly (token : String) :
    ((∀ cs, characters? token = some cs ↔ IsCharacters token cs) ∧
      (∀ ds, digits? token = some ds ↔ IsDigits token ds) ∧
      ∀ n, Register.number? token = some n ↔ (1 ≤ n ∧ n ≤ 16) ∧ token = Register.name n) ∧
    ReadByBytes token ∧
    (∀ cs, characters? token = some cs →
      digits? token = none ∧ Text.readDecimal? token = none ∧ Encoding.hexByte? token = none ∧
        Placement.byteContent token = .ok (.literal token) ∧
        EncodesTo token cs.length
          (String.ofList (cs.flatMap fun c ↦ (hex 2 c.toNat).toList))) ∧
    (∀ ds, digits? token = some ds →
      characters? token = none ∧ Text.readDecimal? token = none ∧
        Encoding.hexByte? token = none ∧
        Placement.byteContent token = .ok (.literal (Text.uppercase token)) ∧
        digits? (Text.uppercase token) = some (Text.uppercase (String.ofList ds)).toList ∧
        characters? (Text.uppercase token) = none ∧
        Encoding.hexByte? (Text.uppercase token) = none ∧
        EncodesTo (Text.uppercase token) ds.length (Text.uppercase (String.ofList ds))) ∧
    ∀ literal, Placement.byteContent token = .ok (.literal literal) →
      (∃ cs, characters? token = some cs) ∨ ∃ ds, digits? token = some ds := by
  refine ⟨⟨fun _ ↦ characters?_iff_isCharacters, fun _ ↦ digits?_iff_isDigits,
    fun _ ↦ Register.number?_eq_some_iff⟩, readByBytes token, ?_, ?_,
    fun _ ↦ exists_of_byteContent⟩
  · intro cs hc
    have hquoted := (characters?_iff_isCharacters.mp hc).1
    exact ⟨digits?_eq_none_of_characters? hc, hquoted.readDecimal? (.inl rfl), hquoted.hexByte?,
      byteContent_of_characters? hc, encodesTo_of_characters? hc⟩
  · intro ds hd
    have hquoted := (digits?_iff_isDigits.mp hd).1
    have hupper := digits?_uppercase hd
    have hletters : (Text.uppercase (String.ofList ds)).toList = ds.map Char.toUpper := by
      rw [uppercase_ofList_digits hd, String.toList_ofList]
    refine ⟨characters?_eq_none_of_digits? hd, hquoted.readDecimal? (.inr rfl), hquoted.hexByte?,
      byteContent_of_digits? hd, ?_, characters?_eq_none_of_digits? hupper,
      (digits?_iff_isDigits.mp hupper).1.hexByte?, encodesTo_of_digits? hd⟩
    rw [hletters, hupper]

/-- A hexadecimal literal of mixed case is read, cut out of its token and put into a listing in upper
case. A token with a letter of two bytes between its quotes can be cut but is no literal. -/
theorem literals_read_exactly_sample :
    cutOut? "x\"fE\"" = some "fE" ∧
      Placement.byteContent "x\"fE\"" = .ok (.literal "X\"FE\"") ∧ EncodesTo "X\"FE\"" 2 "FE" ∧
      (∃ contents, cutOut? "X\"é\"" = some contents) ∧ digits? "X\"é\"" = none := by
  have hd : digits? "x\"fE\"" = some ['f', 'E'] := by decide
  have hupper : Text.uppercase "x\"fE\"" = "X\"FE\"" := by decide +kernel
  have hfe : Text.uppercase (String.ofList ['f', 'E']) = "FE" := by decide +kernel
  obtain ⟨-, hbytes, -, hdigits, -⟩ := literals_read_exactly "x\"fE\""
  obtain ⟨-, -, -, hcontent, -, -, -, hencodes⟩ := hdigits _ hd
  rw [hupper] at hcontent hencodes
  rw [hfe] at hencodes
  refine ⟨((hbytes.digits _).mp hd).2.1, hcontent, hencodes, ?_, by decide⟩
  exact (literals_read_exactly "X\"é\"").2.1.digitsCut
    ⟨by decide, ⟨'X', ['é', '"'], .inl rfl, by decide⟩, by decide⟩

end Literal

end SicXe
