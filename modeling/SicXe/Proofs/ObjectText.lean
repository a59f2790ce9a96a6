import SicXe.Proofs.Assembling

/-!
# The text of an object program

An object program is written with a record on each line and single spaces between the fields of a
record. No field holds a blank, whatever the source: names are identifiers, addresses and lengths
are written numbers, and payloads consist of upper-case hexadecimal digits. Splitting the text at
its line feeds and spaces therefore gives back the fields of every record, and the fields determine
the record, so two sources with the same object text have the same records.
-/

namespace SicXe

namespace Text

/-- Written numbers of the same width are equal only if the numbers are. -/
theorem hex_injective (width : Nat) : Function.Injective (hex width) := by
  intro n m h
  have hread := readDigits?_hex width n
  rw [h, readDigits?_hex] at hread
  exact (Option.some.inj hread).symm

/-- The upper-case form of a hexadecimal digit is a written digit. -/
theorem isDigitMark_toUpper {c : Char} (h : isHexDigit c = true) : IsDigitMark c.toUpper :=
  forall_isAscii (p := fun c ↦ isHexDigit c = true → ∃ n < 16, c.toUpper = hexDigit n)
    (by decide) (isAscii_of_isHexDigit h) h

/-- Joined lines are read character by character. -/
theorem toList_joinLines (texts : List String) :
    (joinLines texts).toList = ['\n'].intercalate (texts.map String.toList) := by
  simp [joinLines]

/-- A string of written digits, at least one. -/
def IsDigitString (s : String) : Prop :=
  s.toList ≠ [] ∧ ∀ c ∈ s.toList, IsDigitMark c

/-- A written number is a string of written digits. -/
theorem isDigitString_hex (width n : Nat) : IsDigitString (hex width n) :=
  ⟨toList_hex_ne_nil width n, fun _ hc ↦ isDigitMark_of_mem_hex hc⟩

/-- Strings of written digits stay such strings when they are joined. -/
theorem IsDigitString.append {s t : String} (hs : IsDigitString s) (ht : IsDigitString t) :
    IsDigitString (s ++ t) := by
  refine ⟨by simp [String.toList_append, hs.1], ?_⟩
  intro c hc
  rw [String.toList_append] at hc
  rcases List.mem_append.mp hc with hc | hc
  · exact hs.2 c hc
  · exact ht.2 c hc

/-- A string of written digits is a plain token. -/
theorem IsDigitString.isPlain {s : String} (h : IsDigitString s) : Token.IsPlain s.toList :=
  ⟨h.1, fun c hc ↦ (h.2 c hc).isBlank⟩

end Text

/-! ### Fields of a record -/

namespace Record

/-- A record whose fields are plain tokens and whose payload, if it has one, consists of upper-case
hexadecimal digits. -/
structure IsWritten (record : Record) : Prop where
  /-- No field is empty or holds a blank. -/
  fields_plain : ∀ field ∈ record.fields, Token.IsPlain field.toList
  /-- The payload of a text record is a string of digits. -/
  payload_digits : ∀ label length payload, record = .text label length payload →
    Text.IsDigitString payload

/-- A record is determined by its fields: the letter and the number of fields give the form, and
written numbers can be read back. -/
theorem fields_injective : Function.Injective fields := by
  intro record other h
  cases record with
  | header name start length =>
    cases other with
    | header name' start' length' =>
      simp only [fields, List.cons.injEq, true_and, and_true] at h
      obtain ⟨rfl, hs, hl⟩ := h
      rw [Text.hex_injective 6 hs, Text.hex_injective 6 hl]
    | _ => simp [fields] at h
  | text label length payload =>
    cases other with
    | text label' length' payload' =>
      simp only [fields, List.cons.injEq, true_and, and_true] at h
      obtain ⟨rfl, hl, rfl⟩ := h
      rw [Text.hex_injective 2 hl]
    | _ => simp [fields] at h
  | reserve label length =>
    cases other with
    | reserve label' length' =>
      simp only [fields, List.cons.injEq, true_and, and_true] at h
      obtain ⟨rfl, hl⟩ := h
      rw [Text.hex_injective 2 hl]
    | _ => simp [fields] at h
  | finish address =>
    cases other with
    | finish address' =>
      simp only [fields, List.cons.injEq, true_and, and_true] at h
      rw [Text.hex_injective 6 h]
    | _ => simp [fields] at h

/-- Every record has a field. -/
theorem fields_ne_nil (record : Record) : record.fields ≠ [] := by
  cases record <;> simp [fields]

private theorem isPlain_letter {letter : String} {c : Char} (h : letter.toList = [c])
    (hc : Text.isBlank c = false) : Token.IsPlain letter.toList := by
  rw [h]
  exact ⟨by simp, by simpa using hc⟩

/-- A header with an identifier as its name is written. -/
theorem isWritten_header {name : String} (h : IsIdentifier name) (start length : Nat) :
    (header name start length).IsWritten := by
  refine ⟨?_, by rintro _ _ _ ⟨⟩⟩
  have letter : Token.IsPlain "H".toList := isPlain_letter rfl (by decide)
  simpa [fields] using ⟨letter, h.isPlain, Text.isPlain_hex 6 start, Text.isPlain_hex 6 length⟩

/-- A text record at an address is written if its payload consists of digits. -/
theorem isWritten_text {payload : String} (h : Text.IsDigitString payload)
    (address length : Nat) : (text (Text.hex 6 address) length payload).IsWritten := by
  refine ⟨?_, by rintro _ _ _ ⟨⟩; exact h⟩
  have letter : Token.IsPlain "T".toList := isPlain_letter rfl (by decide)
  simpa [fields] using ⟨letter, Text.isPlain_hex 6 address, Text.isPlain_hex 2 length, h.isPlain⟩

/-- A reserving record at an address is written. -/
theorem isWritten_reserve (address length : Nat) :
    (reserve (Text.hex 6 address) length).IsWritten := by
  refine ⟨?_, by rintro _ _ _ ⟨⟩⟩
  have letter : Token.IsPlain "T".toList := isPlain_letter rfl (by decide)
  simpa [fields] using ⟨letter, Text.isPlain_hex 6 address, Text.isPlain_hex 2 length⟩

/-- An end record is written. -/
theorem isWritten_finish (address : Nat) : (finish address).IsWritten := by
  refine ⟨?_, by rintro _ _ _ ⟨⟩⟩
  have letter : Token.IsPlain "E".toList := isPlain_letter rfl (by decide)
  simpa [fields] using ⟨letter, Text.isPlain_hex 6 address⟩

/-- The text of a written record splits at its spaces into its fields. -/
theorem IsWritten.splitOn_render {record : Record} (h : record.IsWritten) :
    record.render.toList.splitOn ' ' = record.fields.map String.toList := by
  rw [render, Token.toList_join]
  apply List.splitOn_intercalate
  · intro cs hcs hspace
    obtain ⟨field, hf, rfl⟩ := List.mem_map.mp hcs
    have := (h.fields_plain field hf).2 ' ' hspace
    exact absurd this (by decide)
  · simpa using record.fields_ne_nil

/-- The text of a written record stands on one line. -/
theorem IsWritten.newline_not_mem {record : Record} (h : record.IsWritten) :
    '\n' ∉ record.render.toList := by
  rw [render, Token.toList_join]
  apply Token.not_mem_intercalate (by decide)
  intro cs hcs hn
  obtain ⟨field, hf, rfl⟩ := List.mem_map.mp hcs
  have := (h.fields_plain field hf).2 '\n' hn
  exact absurd this (by decide)

/-- Written records with the same text are the same record. -/
theorem eq_of_render_eq {record other : Record} (h : record.IsWritten) (ho : other.IsWritten)
    (he : record.render.toList = other.render.toList) : record = other := by
  apply fields_injective
  have hfields := h.splitOn_render
  rw [he, ho.splitOn_render] at hfields
  exact ((List.map_inj_right fun _ _ ↦ String.toList_inj.mp).mp hfields).symm

/-- The text of written records splits at its line feeds into the texts of the records. -/
theorem splitOn_joinLines {records : List Record} (hne : records ≠ [])
    (h : ∀ record ∈ records, record.IsWritten) :
    (Text.joinLines (records.map render)).toList.splitOn '\n' =
      records.map fun record ↦ record.render.toList := by
  rw [Text.toList_joinLines, List.map_map]
  apply List.splitOn_intercalate
  · intro cs hcs
    obtain ⟨record, hr, rfl⟩ := List.mem_map.mp hcs
    exact (h record hr).newline_not_mem
  · simpa using hne

/-- Written records are recovered from their texts, one by one. -/
theorem eq_of_map_render_eq {records others : List Record}
    (h : ∀ record ∈ records, record.IsWritten) (ho : ∀ record ∈ others, record.IsWritten)
    (he : (records.map fun record ↦ record.render.toList) =
      others.map fun record ↦ record.render.toList) : records = others := by
  induction records generalizing others with
  | nil =>
    cases others with
    | nil => rfl
    | cons other others => cases he
  | cons record records ih =>
    cases others with
    | nil => cases he
    | cons other others =>
      obtain ⟨hfirst, hrest⟩ := List.cons.inj he
      rw [List.forall_mem_cons] at h ho
      rw [eq_of_render_eq h.1 ho.1 hfirst, ih h.2 ho.2 hrest]

end Record

/-! ### Records of an assembled source -/

namespace Listing

open Text (hex IsDigitString)

/-- The payload of a literal consists of digits. -/
theorem isDigitString_literalText? {token payload : String} {length : Nat}
    (h : literalText? token = some (length, payload)) : IsDigitString payload := by
  unfold literalText? at h
  split at h
  · next cs hcs =>
    obtain ⟨-, rfl⟩ := Prod.mk.inj (Option.some.inj h)
    obtain ⟨c, hc⟩ := List.exists_mem_of_ne_nil cs (Literal.characters?_eq_some_iff.mp hcs).2.1
    constructor
    · rw [String.toList_ofList, ne_eq, List.flatMap_eq_nil_iff]
      exact fun hnil ↦ Text.toList_hex_ne_nil 2 c.toNat (hnil c hc)
    · intro d hd
      rw [String.toList_ofList, List.mem_flatMap] at hd
      obtain ⟨e, -, hd⟩ := hd
      exact Text.isDigitMark_of_mem_hex hd
  · obtain ⟨ds, hds, he⟩ := Option.map_eq_some_iff.mp h
    obtain ⟨-, rfl⟩ := Prod.mk.inj he
    obtain ⟨-, ⟨hne, -⟩, hx⟩ := Literal.digits?_eq_some_iff.mp hds
    have hlist : (Text.uppercase (String.ofList ds)).toList = ds.map Char.toUpper := by
      rw [Text.toList_uppercase_of_ascii, String.toList_ofList]
      intro c hc
      rw [String.toList_ofList] at hc
      exact Text.isAscii_of_isHexDigit (hx c hc)
    rw [IsDigitString, hlist]
    constructor
    · simpa using hne
    · intro c hc
      obtain ⟨d, hd, rfl⟩ := List.mem_map.mp hc
      exact Text.isDigitMark_toUpper (hx d hd)

/-- The payload of an instruction consists of digits. -/
theorem Operand.isDigitString_text? {symbols : SymbolTable} {code : UInt8} {operand : Operand}
    {length : Nat} {payload : String} (h : operand.text? symbols code = some (length, payload)) :
    IsDigitString payload := by
  have hcode := Text.isDigitString_hex 2 code.toNat
  cases operand with
  | none =>
    obtain ⟨-, rfl⟩ := Prod.mk.inj (Option.some.inj h)
    exact hcode
  | registers first second =>
    simp only [text?] at h
    split at h
    · next i j _ _ =>
      obtain ⟨-, rfl⟩ := Prod.mk.inj (Option.some.inj h)
      exact (hcode.append (Text.isDigitString_hex 1 i)).append (Text.isDigitString_hex 1 j)
    · cases h
  | byte value =>
    obtain ⟨-, rfl⟩ := Prod.mk.inj (Option.some.inj h)
    exact hcode.append (Text.isDigitString_hex 2 value.toNat)
  | address value =>
    obtain ⟨-, rfl⟩ := Prod.mk.inj (Option.some.inj h)
    exact hcode.append (Text.isDigitString_hex 6 value)
  | symbol name =>
    obtain ⟨entry, -, he⟩ := Option.map_eq_some_iff.mp h
    obtain ⟨-, rfl⟩ := Prod.mk.inj he
    exact hcode.append (Text.isDigitString_hex 6 entry.address)

/-- Whatever a line puts into memory, its record is written. -/
theorem Line.isWritten_record? {symbols : SymbolTable} {line : Line} {record : Record}
    (h : line.record? symbols = some record) : record.IsWritten := by
  cases line with
  | start label address => cases h
  | body address content =>
    cases content with
    | word value =>
      obtain rfl := Option.some.inj h
      exact Record.isWritten_text (Text.isDigitString_hex 6 value) address 3
    | byte value =>
      obtain rfl := Option.some.inj h
      exact Record.isWritten_text (Text.isDigitString_hex 2 value.toNat) address 1
    | literal token =>
      obtain ⟨⟨length, payload⟩, hl, rfl⟩ := Option.map_eq_some_iff.mp h
      exact Record.isWritten_text (isDigitString_literalText? hl) address length
    | reserveWords count =>
      obtain rfl := Option.some.inj h
      exact Record.isWritten_reserve address _
    | reserveBytes count =>
      obtain rfl := Option.some.inj h
      exact Record.isWritten_reserve address _
    | instruction code operand =>
      obtain ⟨⟨length, payload⟩, ht, rfl⟩ := Option.map_eq_some_iff.mp h
      exact Record.isWritten_text (Operand.isDigitString_text? ht) address length

end Listing

namespace Session

variable {session after : Session} {source : String} {assembly : Assembly}

/-- Every record of an assembled source is written. -/
theorem isWritten_of_assemble (h : session.assemble source = (.ok assembly, after)) :
    ∀ record ∈ assembly.records, record.IsWritten := by
  obtain ⟨p, records, hreads, -, -, -, -, hmap, hrecords⟩ := exists_program_of_assemble h
  have hbody : ∀ record ∈ records, record.IsWritten := by
    intro record hm
    have hmem := List.mem_map_of_mem (f := some) hm
    rw [← hmap] at hmem
    obtain ⟨line, -, hline⟩ := List.mem_map.mp hmem
    exact Listing.Line.isWritten_record? hline
  rw [hrecords]
  intro record hm
  rcases List.mem_append.mp hm with hm | hm
  · rcases List.mem_cons.mp hm with rfl | hm
    · exact Record.isWritten_header hreads.isIdentifier_name.uppercase _ _
    · exact hbody record hm
  · rw [List.mem_singleton.mp hm]
    exact Record.isWritten_finish _

/-- An assembled source has records. -/
theorem records_ne_nil_of_assemble (h : session.assemble source = (.ok assembly, after)) :
    assembly.records ≠ [] := by
  obtain ⟨p, records, -, -, -, -, -, -, hrecords⟩ := exists_program_of_assemble h
  simp [hrecords]

/-- The object text of an assembled source splits at its line feeds into one line for each record
and each line at its spaces into the fields of the record. No field is empty or holds a blank, and
a payload consists of upper-case hexadecimal digits. Two assembled sources with the same object
text have the same records. -/
theorem object_text_lossless (h : session.assemble source = (.ok assembly, after)) :
    (assembly.objectText.toList.splitOn '\n' =
        assembly.records.map fun record ↦ record.render.toList) ∧
      (∀ record ∈ assembly.records,
        record.render.toList.splitOn ' ' = record.fields.map String.toList ∧
        (∀ field ∈ record.fields, field ≠ "" ∧ ∀ c ∈ field.toList, Text.isBlank c = false) ∧
        ∀ label length payload, record = .text label length payload →
          payload ≠ "" ∧ ∀ c ∈ payload.toList, c ∈ "0123456789ABCDEF".toList) ∧
      ∀ (session' after' : Session) (source' : String) (assembly' : Assembly),
        session'.assemble source' = (.ok assembly', after') →
        assembly'.objectText = assembly.objectText → assembly'.records = assembly.records := by
  have hwritten := isWritten_of_assemble h
  have hsplit := Record.splitOn_joinLines (records_ne_nil_of_assemble h) hwritten
  refine ⟨hsplit, ?_, ?_⟩
  · intro record hm
    have hrecord := hwritten record hm
    refine ⟨hrecord.splitOn_render, ?_, ?_⟩
    · intro field hf
      have hplain := hrecord.fields_plain field hf
      exact ⟨by rintro rfl; exact hplain.1 rfl, hplain.2⟩
    · intro label length payload he
      have hdigits := hrecord.payload_digits label length payload he
      refine ⟨by rintro rfl; exact hdigits.1 rfl, fun c hc ↦ ?_⟩
      exact (hdigits.2 c hc).elim (p := fun c ↦ c ∈ "0123456789ABCDEF".toList) (by decide)
  · intro session' after' source' assembly' h' he
    have hwritten' := isWritten_of_assemble h'
    have hsplit' := Record.splitOn_joinLines (records_ne_nil_of_assemble h') hwritten'
    apply Record.eq_of_map_render_eq hwritten' hwritten
    rw [← hsplit, ← hsplit']
    exact congrArg (fun text ↦ text.toList.splitOn '\n') he

/-- What is assembled from a program of one word. -/
def oneWord (symbols : List Symbol) : Assembly where
  listing := [.start "P" 16, .body 16 (.word 1)]
  symbols := symbols
  records := [.header "P" 16 3, .text "000010" 3 "000001", .finish 16]

/-- The word is assembled from two sources, one of which gives it a label. The object text splits
into the texts of its records, and the text of the word into its fields; the two sources have the
same object text and so the same records. -/
theorem object_text_lossless_sample :
    ∃ after after',
      (start {}).assemble "P START 16\nA WORD 1\nEND" = (.ok (oneWord [⟨"A", 16⟩]), after) ∧
      (start {}).assemble "p start 16\nWORD 1\nEND 16" = (.ok (oneWord []), after') ∧
      (oneWord []).objectText = "H P 000010 000003\nT 000010 03 000001\nE 000010" ∧
      (oneWord []).objectText.toList.splitOn '\n' =
        ["H P 000010 000003".toList, "T 000010 03 000001".toList, "E 000010".toList] ∧
      "T 000010 03 000001".toList.splitOn ' ' =
        ["T".toList, "000010".toList, "03".toList, "000001".toList] ∧
      (oneWord [⟨"A", 16⟩]).records = (oneWord []).records := by
  have hlabel : ((start {}).assemble "P START 16\nA WORD 1\nEND").1 =
      .ok (oneWord [⟨"A", 16⟩]) := by
    decide +kernel
  have hplain : ((start {}).assemble "p start 16\nWORD 1\nEND 16").1 = .ok (oneWord []) := by
    decide +kernel
  obtain ⟨after, h⟩ := exists_after hlabel
  obtain ⟨after', h'⟩ := exists_after hplain
  have htexts : (oneWord []).records.map (fun record ↦ record.render.toList) =
      ["H P 000010 000003".toList, "T 000010 03 000001".toList, "E 000010".toList] := by
    decide +kernel
  obtain ⟨hlines, hfields, htwo⟩ := object_text_lossless h'
  have hword := (hfields (.text "000010" 3 "000001") (by simp [oneWord])).1
  have hrender : (Record.text "000010" 3 "000001").render = "T 000010 03 000001" := by
    decide +kernel
  have hparts : (Record.text "000010" 3 "000001").fields = ["T", "000010", "03", "000001"] := by
    decide +kernel
  rw [hrender, hparts] at hword
  exact ⟨after, after', h, h', by decide +kernel, hlines.trans htexts, hword,
    htwo _ _ _ _ h rfl⟩

end Session

end SicXe
