import SicXe.Proofs.ListingText
import SicXe.Proofs.Tables

/-!
# The text of an instruction table

A table is written with a row of three words for each definition: its name, its opcode in two
hexadecimal digits and its width in bytes. Names are identifiers, so they are words even where they
begin with the letter of a literal, and the rows are read back as the same definitions in the same
order. Rows may be written in other ways too, with signs, leading zeros or more blanks; the table
that they form is written in this one way, which no further reading changes.
-/

namespace SicXe

/-! ### Rows -/

namespace Definition

/-- The fields of a definition as they are written. -/
def row (d : Definition) : Row where
  name := d.name
  code := Text.hex 2 d.opcode.toNat
  length := toString d.width.bytes

/-- The words of a definition as it is written. -/
def words (d : Definition) : List String := [d.row.name, d.row.code, d.row.length]

/-- A definition is written as its words with spaces between them. -/
theorem render_eq_join (d : Definition) : d.render = Token.join d.words := by
  apply String.toList_inj.mp
  simp [render, words, row, Token.toList_join]

/-- The words of a definition form the row of its fields. -/
theorem ofTokens_words (d : Definition) : Row.ofTokens d.words = .ok d.row := rfl

end Definition

/-- A width has one digit, which is the same in decimal and in hexadecimal. -/
theorem Width.toString_bytes (w : Width) : toString w.bytes = Text.hex 1 w.bytes := by
  cases w <;> decide +kernel

namespace Definition

variable {d : Definition}

/-- The words of a definition with a proper name form a line. -/
theorem isLine_words (h : IsInstructionName d.name) : Token.IsLine d.words := by
  apply Token.isLine_of_isWord (by simp [words])
  intro token ht
  simp only [words, row, List.mem_cons, List.not_mem_nil, or_false] at ht
  rcases ht with rfl | rfl | rfl
  · exact h.isIdentifier.isWord
  · exact Token.isWord_hex 2 d.opcode.toNat
  · rw [Width.toString_bytes]
    exact Token.isWord_hex 1 d.width.bytes

/-- A definition that is right on its own is read from its fields. -/
theorem read_row (hn : IsInstructionName d.name) (ho : d.opcode.toNat ≤ maxOpcode) :
    d.row.read = .ok d := by
  have hcode : Text.readHexBelow? 4294967296 (Text.hex 2 d.opcode.toNat) = some d.opcode.toNat := by
    have := d.opcode.toNat_lt
    exact Text.readHexBelow?_hex 2 (by omega)
  have hlength : Text.readHexBelow? 4294967296 (Text.hex 1 d.width.bytes) = some d.width.bytes := by
    apply Text.readHexBelow?_hex 1
    cases d.width <;> decide
  have hdefinition : d.row.definition = .ok d := by
    simp only [Row.definition, row, nameFault?_eq_none_iff.mpr hn, hcode, Nat.not_lt.mpr ho,
      ↓reduceIte, Width.toString_bytes, hlength, Width.ofBytes?_bytes, UInt8.ofNat_toNat]
  rw [Row.read, hdefinition]

end Definition

/-! ### Tables -/

/-- A function that accepts all elements collects its results. -/
theorem collect_map_eq_ok {α β γ : Type} {f : β → Except Error γ} {g : α → β} {r : α → γ}
    {as : List α} (h : ∀ a ∈ as, f (g a) = .ok (r a)) :
    collect f (as.map g) = .ok (as.map r) := by
  rw [collect_eq_ok_iff, List.map_map, List.map_map]
  exact List.map_congr_left h

namespace OpTable

variable {table : OpTable}

/-- The text of a well-formed table has a row for each definition. -/
theorem WellFormed.rows_render (h : table.WellFormed) :
    Row.ofText table.render = .ok (table.definitions.map Definition.row) := by
  have hlines : Token.ofText table.render = table.definitions.map Definition.words := by
    have hrender : table.definitions.map Definition.render =
        (table.definitions.map Definition.words).map Token.join := by
      rw [List.map_map]
      exact List.map_congr_left fun d _ ↦ d.render_eq_join
    rw [render, hrender]
    apply Token.ofText_joinLines
    intro tokens ht
    obtain ⟨d, hd, rfl⟩ := List.mem_map.mp ht
    exact Definition.isLine_words (h.names d hd)
  rw [Row.ofText, hlines]
  exact collect_map_eq_ok fun d _ ↦ d.ofTokens_words

/-- The rows of a well-formed table form the table. -/
theorem WellFormed.ofRows_rows (h : table.WellFormed) :
    ofRows (table.definitions.map Definition.row) = .ok table := by
  have hread : collect Row.read (table.definitions.map Definition.row) =
      .ok (table.definitions.map id) :=
    collect_map_eq_ok fun d hd ↦ Definition.read_row (h.names d hd) (h.opcodes_le d hd)
  rw [ofRows, hread, List.map_id]
  exact ofDefinitions_eq_ok_iff.mpr ⟨rfl, h⟩

/-- A well-formed table is recovered from its text. -/
theorem WellFormed.ofText_render (h : table.WellFormed) : ofText table.render = .ok table := by
  rw [ofText, h.rows_render]
  exact h.ofRows_rows

/-- A table that is read from a text is accepted. -/
theorem accepted_of_ofText {text : String} (h : ofText text = .ok table) : table.Accepted := by
  unfold ofText at h
  split at h
  · cases h
  · exact .ofRows h

/-- The text of an accepted table has rows that form the same table again: the same definitions in
the same order. Writing the table of a text gives a text that is read and written without change. -/
theorem table_text_round_trips :
    (∀ table : OpTable, table.Accepted →
        ∃ rows, Row.ofText table.render = .ok rows ∧ ofRows rows = .ok table) ∧
      ∀ text written, (ofText text).map render = .ok written →
        (ofText written).map render = .ok written := by
  constructor
  · intro table h
    exact ⟨_, h.wellFormed.rows_render, h.wellFormed.ofRows_rows⟩
  · intro text written h
    cases htable : ofText text with
    | error e =>
      rw [htable] at h
      cases h
    | ok table =>
      rw [htable] at h
      obtain rfl := Except.ok.inj h
      rw [(accepted_of_ofText htable).wellFormed.ofText_render]
      rfl

/-- The standard table is recovered from its text. A text with names that begin like literals, and
with signs, leading zeros and an empty line, is written in one way. -/
theorem table_text_round_trips_sample :
    (∃ rows, Row.ofText standard.render = .ok rows ∧ ofRows rows = .ok standard) ∧
      (ofText "C +1 04\n\n\tX  03f 1\r\n").map render = .ok "C 01 4\nX 3F 1" ∧
      (ofText "C 01 4\nX 3F 1").map render = .ok "C 01 4\nX 3F 1" := by
  obtain ⟨hrows, hfixed⟩ := table_text_round_trips
  have hwritten : (ofText "C +1 04\n\n\tX  03f 1\r\n").map render = .ok "C 01 4\nX 3F 1" := by
    decide +kernel
  exact ⟨hrows _ .standard, hwritten, hfixed _ _ hwritten⟩

end OpTable

end SicXe
