import SicXe.Proofs.ListingText
import SicXe.Session

/-!
# Encoding by type

The object record of a listing line, found from the typed line and not from its text: the contents
decide length and payload, and a label operand is looked up. `Line.Encodes` says case by case what
the record is, in terms of the spelling of registers and literals, and `Line.record?` computes it.
Encoding the text of a well-formed line that fits in memory gives this record, and the only way to
have none is a label that is not defined. Assembling therefore fails after placing in exactly two
ways, and otherwise yields the typed records.
-/

namespace SicXe

namespace Listing

open Text (hex)

/-- The length and the payload of a literal: its ASCII characters as bytes, or its digits in upper
case, each counted as one. -/
def literalText? (token : String) : Option (Nat × String) :=
  match Literal.characters? token with
  | some cs => some (cs.length, String.ofList (cs.flatMap fun c ↦ (hex 2 c.toNat).toList))
  | none =>
    (Literal.digits? token).map fun ds ↦ (ds.length, Text.uppercase (String.ofList ds))

/-- The length and the payload of an instruction. -/
def Operand.text? (symbols : SymbolTable) (code : UInt8) : Operand → Option (Nat × String)
  | none => some (1, hex 2 code.toNat)
  | registers first second =>
    match Register.number? first, Register.number? second with
    | some i, some j => some (2, hex 2 code.toNat ++ hex 1 i ++ hex 1 j)
    | _, _ => .none
  | byte value => some (1, hex 2 code.toNat ++ hex 2 value.toNat)
  | address value => some (3, hex 2 code.toNat ++ hex 6 value)
  | symbol name =>
    (symbols.find? name).map fun entry ↦ (4, hex 2 code.toNat ++ hex 6 entry.address)

/-- The record of a content with the given address label. -/
def Content.record? (symbols : SymbolTable) (label : String) : Content → Option Record
  | word value => some (.text label 3 (hex 6 value))
  | byte value => some (.text label 1 (hex 2 value.toNat))
  | literal token => (literalText? token).map fun (length, payload) ↦ .text label length payload
  | reserveWords count => some (.reserve label (3 * count.toNat))
  | reserveBytes count => some (.reserve label count.toNat)
  | instruction code operand =>
    (operand.text? symbols code).map fun (length, payload) ↦ .text label length payload

/-- The record of a line; the opening line gives the header instead. -/
def Line.record? (symbols : SymbolTable) : Line → Option Record
  | start _ _ => none
  | body address content => content.record? symbols (hex 6 address)

/-- The record of a line, case by case: registers are given by their numbers, a literal by what
stands between its quotes, and a label by the first symbol of its name. -/
inductive Line.Encodes (symbols : SymbolTable) : Line → Record → Prop
  | word {address value : Nat} :
      Encodes symbols (.body address (.word value)) (.text (hex 6 address) 3 (hex 6 value))
  | byte {address : Nat} {value : UInt8} :
      Encodes symbols (.body address (.byte value)) (.text (hex 6 address) 1 (hex 2 value.toNat))
  | characters {address : Nat} {token : String} {cs : List Char} : Literal.IsCharacters token cs →
      Encodes symbols (.body address (.literal token))
        (.text (hex 6 address) cs.length (String.join (cs.map fun c ↦ hex 2 c.toNat)))
  | digits {address : Nat} {token : String} {ds : List Char} : Literal.IsDigits token ds →
      Encodes symbols (.body address (.literal token))
        (.text (hex 6 address) ds.length (String.ofList (ds.map Char.toUpper)))
  | reserveWords {address : Nat} {count : UInt8} :
      Encodes symbols (.body address (.reserveWords count))
        (.reserve (hex 6 address) (3 * count.toNat))
  | reserveBytes {address : Nat} {count : UInt8} :
      Encodes symbols (.body address (.reserveBytes count)) (.reserve (hex 6 address) count.toNat)
  | noOperand {address : Nat} {code : UInt8} :
      Encodes symbols (.body address (.instruction code .none))
        (.text (hex 6 address) 1 (hex 2 code.toNat))
  | registers {address i j : Nat} {code : UInt8} : 1 ≤ i ∧ i ≤ 16 → 1 ≤ j ∧ j ≤ 16 →
      Encodes symbols
        (.body address (.instruction code (.registers (Register.name i) (Register.name j))))
        (.text (hex 6 address) 2 (hex 2 code.toNat ++ hex 1 i ++ hex 1 j))
  | byteOperand {address : Nat} {code value : UInt8} :
      Encodes symbols (.body address (.instruction code (.byte value)))
        (.text (hex 6 address) 1 (hex 2 code.toNat ++ hex 2 value.toNat))
  | addressOperand {address value : Nat} {code : UInt8} :
      Encodes symbols (.body address (.instruction code (.address value)))
        (.text (hex 6 address) 3 (hex 2 code.toNat ++ hex 6 value))
  | symbol {address : Nat} {code : UInt8} {name : String} {entry : Symbol} :
      symbols.IsFirst name entry →
      Encodes symbols (.body address (.instruction code (.symbol name)))
        (.text (hex 6 address) 4 (hex 2 code.toNat ++ hex 6 entry.address))

/-- A line whose operand is a label that no symbol defines, ignoring the case of letters. -/
def Line.IsUnresolved (symbols : SymbolTable) (line : Line) : Prop :=
  ∃ address code name, line = .body address (.instruction code (.symbol name)) ∧
    ∀ entry ∈ symbols.entries, Text.sameName entry.name name = false

/-- The text of a literal is that of its characters or of its digits. -/
theorem literalText?_eq_some_iff {token payload : String} {length : Nat} :
    literalText? token = some (length, payload) ↔
      (∃ cs, Literal.IsCharacters token cs ∧ length = cs.length ∧
        payload = String.join (cs.map fun c ↦ hex 2 c.toNat)) ∨
      ∃ ds, Literal.IsDigits token ds ∧ length = ds.length ∧
        payload = String.ofList (ds.map Char.toUpper) := by
  simp only [← Literal.characters?_iff_isCharacters, ← Literal.digits?_iff_isDigits, literalText?]
  cases hc : Literal.characters? token with
  | some cs =>
    have hd := Literal.digits?_eq_none_of_characters? hc
    have hjoin : String.ofList (cs.flatMap fun c ↦ (hex 2 c.toNat).toList) =
        String.join (cs.map fun c ↦ hex 2 c.toNat) := by
      rw [← String.toList_inj, String.toList_ofList, String.toList_join, List.flatMap_map]
    simp [hd, hjoin, eq_comm]
  | none =>
    cases hd : Literal.digits? token with
    | none => simp
    | some ds => simp [Literal.uppercase_ofList_digits hd, eq_comm]

/-- The text of a literal is as long as the memory that the literal takes up. -/
theorem length_literalText? {token payload : String} {length : Nat}
    (h : literalText? token = some (length, payload)) : Text.byteLength token - 3 = length := by
  rcases literalText?_eq_some_iff.mp h with ⟨cs, hc, rfl, -⟩ | ⟨ds, hd, rfl, -⟩
  · rw [Literal.byteLength_of_characters? (Literal.characters?_iff_isCharacters.mpr hc),
      Nat.add_sub_cancel]
  · rw [Literal.byteLength_of_digits? (Literal.digits?_iff_isDigits.mpr hd), Nat.add_sub_cancel]

/-- An instruction has the text of its operand. -/
private theorem Operand.encodes_of_text? {symbols : SymbolTable} {address length : Nat}
    {code : UInt8} {operand : Operand} {payload : String}
    (h : operand.text? symbols code = some (length, payload)) :
    (Line.body address (.instruction code operand)).Encodes symbols
      (.text (hex 6 address) length payload) := by
  cases operand with
  | none =>
    obtain ⟨rfl, rfl⟩ := Prod.mk.inj (Option.some.inj h)
    exact .noOperand
  | registers first second =>
    simp only [text?] at h
    split at h
    · next i j hi hj =>
      obtain ⟨rfl, rfl⟩ := Prod.mk.inj (Option.some.inj h)
      obtain ⟨hfirst, rfl⟩ := Register.eq_name_of_number? hi
      obtain ⟨hsecond, rfl⟩ := Register.eq_name_of_number? hj
      exact .registers hfirst hsecond
    · cases h
  | byte value =>
    obtain ⟨rfl, rfl⟩ := Prod.mk.inj (Option.some.inj h)
    exact .byteOperand
  | address value =>
    obtain ⟨rfl, rfl⟩ := Prod.mk.inj (Option.some.inj h)
    exact .addressOperand
  | symbol name =>
    obtain ⟨entry, hfind, he⟩ := Option.map_eq_some_iff.mp h
    obtain ⟨rfl, rfl⟩ := Prod.mk.inj he
    exact .symbol (SymbolTable.find?_eq_some_iff.mp hfind)

/-- A line that has a record is encoded as this record. -/
private theorem Line.encodes_of_record? {symbols : SymbolTable} {line : Line} {record : Record}
    (h : line.record? symbols = some record) : line.Encodes symbols record := by
  cases line with
  | start label address => cases h
  | body address content =>
    cases content with
    | word value =>
      obtain rfl := Option.some.inj h
      exact .word
    | byte value =>
      obtain rfl := Option.some.inj h
      exact .byte
    | literal token =>
      obtain ⟨⟨length, payload⟩, ht, rfl⟩ := Option.map_eq_some_iff.mp h
      rcases literalText?_eq_some_iff.mp ht with ⟨cs, hc, rfl, rfl⟩ | ⟨ds, hd, rfl, rfl⟩
      · exact .characters hc
      · exact .digits hd
    | reserveWords count =>
      obtain rfl := Option.some.inj h
      exact .reserveWords
    | reserveBytes count =>
      obtain rfl := Option.some.inj h
      exact .reserveBytes
    | instruction code operand =>
      obtain ⟨⟨length, payload⟩, ht, rfl⟩ := Option.map_eq_some_iff.mp h
      exact Operand.encodes_of_text? ht

/-- The record of a line is the one that the line is encoded as. -/
theorem Line.record?_eq_some_iff {symbols : SymbolTable} {line : Line} {record : Record} :
    line.record? symbols = some record ↔ line.Encodes symbols record := by
  constructor
  · exact encodes_of_record?
  · intro h
    cases h with
    | characters hc =>
      have ht := literalText?_eq_some_iff.mpr (.inl ⟨_, hc, rfl, rfl⟩)
      simp [record?, Content.record?, ht]
    | digits hd =>
      have ht := literalText?_eq_some_iff.mpr (.inr ⟨_, hd, rfl, rfl⟩)
      simp [record?, Content.record?, ht]
    | registers hi hj =>
      simp [record?, Content.record?, Operand.text?, Register.number?_name hi,
        Register.number?_name hj]
    | symbol hfirst =>
      simp [record?, Content.record?, Operand.text?, SymbolTable.find?_eq_some_iff.mpr hfirst]
    | _ => rfl

/-- Lines that all have records are encoded as them, one by one. -/
theorem forall₂_encodes_of_map {symbols : SymbolTable} {lines : List Line} {records : List Record}
    (h : lines.map (Line.record? symbols) = records.map some) :
    List.Forall₂ (Line.Encodes symbols) lines records := by
  rw [← List.forall₂_eq_eq_eq, List.forall₂_map_left_iff, List.forall₂_map_right_iff] at h
  exact h.imp fun _ _ ↦ Line.record?_eq_some_iff.mp

/-- A well-formed content that fits in a memory with addresses of 32 bits. -/
def Content.Fits (c : Content) : Prop :=
  c.WellFormed ∧ c.size < UInt32.size

/-- The operand of a line as the operands of an entry. -/
def Operand.operands : Operand → Operands
  | none => .none
  | registers first second => .two first second
  | byte value => .one (hex 2 value.toNat)
  | address value => .one (hex 6 value)
  | symbol name => .one name

/-- The operands of an entry are the tokens of the operand. -/
theorem Operand.toList_operands (operand : Operand) : operand.operands.toList = operand.tokens := by
  cases operand <;> rfl

/-- A slot, a code and operands are read as an entry. -/
theorem Entry.parse_toList (slot code : String) (operands : Operands) :
    Entry.parse (slot :: code :: operands.toList) = .ok (.ofWritten slot code operands) := by
  cases operands <;> rfl

end Listing

/-- The items of a program that ends within memory fit. -/
theorem Program.fits_of_mem_items {g : Grammar} {limit : Nat} {source : List (List String)}
    {p : Program} (h : g.Reads limit source p) (hfit : p.finish ≤ limit)
    (hword : limit < UInt32.size) : ∀ item ∈ p.items, item.content.Fits := by
  intro item hm
  have hsize : item.content.size ≤ extent p.items :=
    List.le_sum_of_mem (List.mem_map_of_mem hm)
  refine ⟨wellFormed_of_mem_items h item hm, ?_⟩
  unfold finish at hfit
  omega

namespace Encoding

open Listing (Operand Content Line Entry literalText?)
open Text (hex)

variable {symbols : SymbolTable}

/-- A result, or the fault that a label is not defined. -/
def orUndefined {α : Type} : Option α → Except Fault α
  | some a => .ok a
  | none => .error .undefinedSymbol

private theorem map_orUndefined {α β : Type} (f : α → β) (x : Option α) :
    (orUndefined x).map f = orUndefined (x.map f) := by
  cases x <;> rfl

/-- A length below the bound of the field stays as it is. -/
theorem lengthField_of_lt {length : Nat} (h : length < UInt32.size) : lengthField length = length :=
  Nat.mod_eq_of_lt h

/-! ### Instructions -/

private theorem byteLength_hex (width n : Nat) :
    Text.byteLength (hex width n) = (hex width n).toList.length :=
  Text.byteLength_of_ascii fun _ hc ↦
    (Text.isDigitMark_of_mem_hex hc).elim (p := fun c ↦ Text.isAscii c = true) (by decide)

private theorem length_hex_field {value : Nat} (h : value ≤ maxField) :
    (hex 6 value).toList.length = 6 :=
  Text.length_hex (Nat.lt_of_le_of_lt h (by decide))

/-- The written operand of an instruction in addressing mode zero has the typed text. -/
theorem immediate_operands {code : UInt8} {operand : Operand} (h : operand.WellFormed code)
    (hm : code.toNat % 4 = 0) :
    immediate (hex 2 code.toNat) operand.operands =
      orUndefined (operand.text? symbols code) := by
  cases operand with
  | none => rfl
  | registers first second =>
    obtain ⟨i, hi⟩ := Option.isSome_iff_exists.mp h.2.1
    obtain ⟨j, hj⟩ := Option.isSome_iff_exists.mp h.2.2
    simp [immediate, Operand.operands, Operand.text?, hi, hj, orUndefined]
  | byte value =>
    simp [immediate, Operand.operands, Operand.text?, byteLength_hex, Text.length_hex_byte,
      lengthField, orUndefined]
  | address value =>
    simp [immediate, Operand.operands, Operand.text?, byteLength_hex, length_hex_field h.2,
      lengthField, orUndefined]
  | symbol name =>
    have := h.1
    omega

/-- The written operand of an instruction has the typed text. -/
theorem instructionText_operands {code : UInt8} {operand : Operand}
    (h : operand.WellFormed code) :
    instructionText symbols (hex 2 code.toNat) operand.operands =
      orUndefined (operand.text? symbols code) := by
  have read : Text.readHexBelow? 256 (hex 2 code.toNat) = some code.toNat :=
    Text.readHexBelow?_hex 2 code.toNat_lt
  by_cases hm : code.toNat % 4 = 0
  · simp only [instructionText, read, hm]
    exact immediate_operands h hm
  · cases operand with
    | none => exact absurd h hm
    | registers first second => exact absurd h.1 hm
    | byte value => exact absurd h hm
    | address value => exact absurd h.1 hm
    | symbol name =>
      have hd : code.toNat % 4 = 1 := h.1
      simp only [instructionText, read, hd, direct, Operand.operands, required, Operand.text?]
      cases symbols.find? name with
      | none => rfl
      | some entry => rfl

/-! ### Storage -/

private theorem hexByte?_hex (b : UInt8) : hexByte? (hex 2 b.toNat) = some b.toNat := by
  have digits : (hex 2 b.toNat).toList.all Text.isHexDigit = true := by
    rw [List.all_eq_true]
    exact fun c hc ↦ (Text.isDigitMark_of_mem_hex hc).isHexDigit
  rw [hexByte?, if_pos (by simp [Text.length_hex_byte, digits])]
  exact Text.readHexBelow?_hex 2 b.toNat_lt

/-- A token with a quote is no byte in hexadecimal digits. -/
theorem hexByte?_literal {token : String} (h : '"' ∈ token.toList) :
    hexByte? token = none := by
  have digits : token.toList.all Text.isHexDigit = false := by
    rw [List.all_eq_false]
    exact ⟨'"', h, by decide⟩
  rw [hexByte?, if_neg (by simp [digits])]

private theorem reserveCount_hex {count : UInt8} (h : count ≠ 0) :
    reserveCount (hex 2 count.toNat) = .ok count.toNat := by
  have hz : count.toNat ≠ 0 := fun hz ↦ h (UInt8.toNat_inj.mp hz)
  rw [reserveCount, Text.readHexBelow?_hex 2 count.toNat_lt]
  split
  · next he => cases he
  · next he => exact absurd (Option.some.inj he) hz
  · next n he => rw [Option.some.inj he]

/-- The text of a written literal is its typed text, with the length as far as the field holds it. -/
theorem byteString_literal {token : String} (h : (Content.literal token).WellFormed) :
    byteString token = orUndefined ((literalText? token).map fun (length, payload) ↦
      (lengthField length, payload)) := by
  rw [byteString, hexByte?_literal (Listing.quote_mem_of_wellFormed h), literalText?]
  rcases h with ⟨cs, hc⟩ | ⟨ds, hd, hu⟩
  · simp only [hc]
    rfl
  · have hc := Literal.characters?_eq_none_of_digits? hd
    simp only [hc, hd, Option.map_some, Literal.uppercase_ofList_digits hd, hu]
    rfl

/-- The field holds the length of a literal that fits. -/
theorem map_lengthField_literalText? {token : String} (h : (Content.literal token).Fits) :
    ((literalText? token).map fun (length, payload) ↦ (lengthField length, payload)) =
      literalText? token := by
  rcases ht : literalText? token with _ | ⟨length, payload⟩
  · rfl
  · have hlength : length < UInt32.size := by
      rw [← Listing.length_literalText? ht]
      exact h.2
    simp only [Option.map_some, lengthField_of_lt hlength]

private theorem entryRecord_storage (slot : String) (kind : Storage) (operand : String) :
    entryRecord symbols (.ofWritten slot kind.name (.one operand)) =
      storageRecord (Text.uppercase slot) kind operand := by
  have hk : Directive.ofToken? (Text.uppercase kind.name) = some (.storage kind) := by
    cases kind <;> decide
  simp only [entryRecord, Entry.ofWritten, hk, required, Except.bind]

/-! ### Lines -/

/-- A storage line is encoded by its directive and its operand. -/
theorem lineRecord_storage (symbols : SymbolTable) (address : Nat) (kind : Storage)
    (operand : String) :
    lineRecord symbols [hex 6 address, kind.name, operand] =
      atLine (Token.join [hex 6 address, kind.name, operand])
        (storageRecord (hex 6 address) kind operand) := by
  rw [lineRecord, Entry.parse, Except.bind, entryRecord_storage, Text.uppercase_hex]

/-- The text of a line that fits gives the typed record, or lacks a label. -/
theorem lineRecord_tokens (symbols : SymbolTable) {c : Content} (h : c.Fits) (address : Nat) :
    lineRecord symbols (Line.body address c).tokens =
      atLine (Line.body address c).render (orUndefined ((Line.body address c).record? symbols)) := by
  have storage := lineRecord_storage symbols address
  cases c with
  | word value => exact storage .word _
  | byte value =>
    refine (storage .byte _).trans ?_
    rw [storageRecord, byteString, hexByte?_hex]
    rfl
  | literal token =>
    refine (storage .byte _).trans ?_
    rw [storageRecord, byteString_literal h.1, map_lengthField_literalText? h, map_orUndefined]
    rfl
  | reserveWords count =>
    refine (storage .reserveWords _).trans ?_
    rw [storageRecord, reserveCount_hex h.1, Except.map, Nat.mul_comm]
    rfl
  | reserveBytes count =>
    refine (storage .reserveBytes _).trans ?_
    rw [storageRecord, reserveCount_hex h.1]
    rfl
  | instruction code operand =>
    have ht : (Line.body address (.instruction code operand)).tokens =
        hex 6 address :: hex 2 code.toNat :: operand.operands.toList := by
      rw [operand.toList_operands]
      rfl
    have hentry : entryRecord symbols
        (.ofWritten (hex 6 address) (hex 2 code.toNat) operand.operands) =
          orUndefined ((Line.body address (.instruction code operand)).record? symbols) := by
      simp only [entryRecord, Entry.ofWritten, Text.uppercase_hex, Directive.ofToken?_hex,
        instructionText_operands h.1, map_orUndefined]
      rfl
    rw [lineRecord, Line.render, ht, Entry.parse_toList, Except.bind, hentry]

private theorem literalText?_ne_none {token : String} (h : (Content.literal token).WellFormed) :
    literalText? token ≠ none := by
  rcases h with ⟨cs, hc⟩ | ⟨ds, hd, -⟩
  · simp [literalText?, hc]
  · cases hc : Literal.characters? token with
    | some cs => simp [literalText?, hc]
    | none => simp [literalText?, hc, hd]

/-- A well-formed line has no record exactly when it names a label that is not defined. -/
theorem record?_eq_none_iff (symbols : SymbolTable) {c : Content} (h : c.WellFormed)
    (address : Nat) :
    (Line.body address c).record? symbols = none ↔
      (Line.body address c).IsUnresolved symbols := by
  cases c with
  | literal token =>
    have hl := literalText?_ne_none h
    simp [Line.record?, Content.record?, Line.IsUnresolved, hl]
  | instruction code operand =>
    cases operand with
    | registers first second =>
      obtain ⟨i, hi⟩ := Option.isSome_iff_exists.mp h.2.1
      obtain ⟨j, hj⟩ := Option.isSome_iff_exists.mp h.2.2
      simp [Line.record?, Content.record?, Operand.text?, hi, hj, Line.IsUnresolved]
    | symbol name =>
      have hr : (Line.body address (.instruction code (.symbol name))).record? symbols = none ↔
          symbols.find? name = none := by
        simp [Line.record?, Content.record?, Operand.text?]
      rw [hr, SymbolTable.find?_eq_none_iff]
      constructor
      · exact fun hf ↦ ⟨address, code, name, rfl, hf⟩
      · rintro ⟨_, _, _, he, hf⟩
        cases he
        exact hf
    | _ => simp [Line.record?, Content.record?, Operand.text?, Line.IsUnresolved]
  | _ => simp [Line.record?, Content.record?, Line.IsUnresolved]

/-! ### Listings -/

open Program (linesFrom)

/-- The text lines of items give their typed records, unless a label is missing: then the first
line that names one decides the error. -/
theorem collect_lineRecord (symbols : SymbolTable) {items : List Item}
    (h : ∀ item ∈ items, item.content.Fits) (address : Nat) :
    (∃ records, (linesFrom address items).map (Line.record? symbols) = records.map some ∧
      collect (lineRecord symbols) ((linesFrom address items).map Line.tokens) = .ok records) ∨
    ∃ before line rest, linesFrom address items = before ++ line :: rest ∧
      (∀ other ∈ before, ¬ other.IsUnresolved symbols) ∧ line.IsUnresolved symbols ∧
      collect (lineRecord symbols) ((linesFrom address items).map Line.tokens) =
        .error ⟨.undefinedSymbol, line.render⟩ := by
  induction items generalizing address with
  | nil => exact Or.inl ⟨[], rfl, rfl⟩
  | cons item items ih =>
    have hw := h item List.mem_cons_self
    have hline := lineRecord_tokens symbols hw address
    have hnone := record?_eq_none_iff symbols hw.1 address
    rw [linesFrom, List.map_cons, List.map_cons, collect, hline]
    cases hr : (Line.body address item.content).record? symbols with
    | none =>
      exact Or.inr ⟨[], _, _, rfl, by simp, hnone.mp hr, rfl⟩
    | some record =>
      have hres : ¬ (Line.body address item.content).IsUnresolved symbols := by
        rw [← hnone, hr]
        simp
      simp only [orUndefined, atLine]
      rcases ih (fun other ho ↦ h other (List.mem_cons_of_mem item ho))
          (address + item.content.size) with ⟨records, hm, hc⟩ | ⟨before, line, rest, hl, hb, hu, hc⟩
      · refine Or.inl ⟨record :: records, ?_, ?_⟩
        · rw [hm, List.map_cons]
        · rw [hc]
          rfl
      · refine Or.inr ⟨Line.body address item.content :: before, line, rest, ?_, ?_, hu, ?_⟩
        · rw [hl, List.cons_append]
        · intro other ho
          rcases List.mem_cons.mp ho with rfl | ho
          · exact hres
          · exact hb other ho
        · rw [hc]
          rfl

/-- What encoding a listing can come to: a label is missing, the entry address lies outside the
program, or there is a record for each line after the opening one. -/
inductive Outcome (symbols : SymbolTable) (layout : Layout) (lines : List Line) :
    Except Error (List Record) → Prop
  | undefined {before rest : List Line} {line : Line} :
      lines = before ++ line :: rest → (∀ other ∈ before, ¬ other.IsUnresolved symbols) →
      line.IsUnresolved symbols →
      Outcome symbols layout lines (.error ⟨.undefinedSymbol, line.render⟩)
  | outside :
      (∀ line ∈ lines, ¬ line.IsUnresolved symbols) → layout.entryInside = false →
      Outcome symbols layout lines (.error ⟨.entryOutside layout.entryAddress, ""⟩)
  | records {label : String} {address : Nat} {body : List Line} {records : List Record} :
      lines = .start label address :: body → (∀ line ∈ lines, ¬ line.IsUnresolved symbols) →
      body.map (Line.record? symbols) = records.map some → layout.entryInside = true →
      Outcome symbols layout lines
        (.ok (.header (Text.uppercase label) layout.startAddress layout.programLength :: records ++
          [.finish layout.entryAddress]))

private theorem not_isUnresolved_start (symbols : SymbolTable) (label : String) (address : Nat) :
    ¬ (Line.start label address).IsUnresolved symbols := by
  rintro ⟨_, _, _, h, _⟩
  cases h

private theorem not_isUnresolved_of_map {items : List Item} {address : Nat} {records : List Record}
    (h : ∀ item ∈ items, item.content.Fits)
    (hm : (linesFrom address items).map (Line.record? symbols) = records.map some) :
    ∀ line ∈ linesFrom address items, ¬ line.IsUnresolved symbols := by
  intro line hl hu
  obtain ⟨a, item, hi, rfl⟩ := Program.exists_item_of_mem_linesFrom hl
  have hmem := List.mem_map_of_mem (f := Line.record? symbols) hl
  rw [hm, (record?_eq_none_iff symbols (h item hi).1 a).mpr hu] at hmem
  simp at hmem

/-- Encoding the token lines of a program's listing has one of the three outcomes. -/
theorem run_outcome {p : Program} (symbols : SymbolTable) (layout : Layout)
    (h : ∀ item ∈ p.items, item.content.Fits) :
    Outcome symbols layout p.listing (run symbols layout (p.listing.map Line.tokens)) := by
  have header : headerRecord layout (Line.start p.name p.start).tokens =
      .ok (.header (Text.uppercase p.name) layout.startAddress layout.programLength) := rfl
  have hstart := not_isUnresolved_start symbols p.name p.start
  rw [Program.listing, List.map_cons, run, header]
  rcases collect_lineRecord symbols h p.start with
    ⟨records, hm, hc⟩ | ⟨before, line, rest, hl, hb, hu, hc⟩
  · have hres : ∀ line ∈ Line.start p.name p.start :: linesFrom p.start p.items,
        ¬ line.IsUnresolved symbols :=
      List.forall_mem_cons.mpr ⟨hstart, not_isUnresolved_of_map h hm⟩
    simp only [hc, endRecord]
    split
    · next hi => exact .records rfl hres hm hi
    · next hi => exact .outside hres (by simpa using hi)
  · have hlines : Line.start p.name p.start :: linesFrom p.start p.items =
        (.start p.name p.start :: before) ++ line :: rest := by
      rw [hl, List.cons_append]
    simp only [hc]
    exact .undefined hlines (List.forall_mem_cons.mpr ⟨hstart, hb⟩) hu

end Encoding

end SicXe
