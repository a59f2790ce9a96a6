import SicXe.Encoding
import SicXe.Proofs.Numbers
import SicXe.Proofs.Spelling

/-!
# Encoding line by line

Encoding reads a listing of any origin from top to bottom. The first line that has no record of its
own decides the error and stands in it; the entry address is judged only behind such lines. Each
record depends on its own line and, where the addressing mode is direct, on the first symbol of the
operand's name. Symbols that are added behind the others therefore change no successful result.
-/

namespace SicXe

/-! ### Numbers are no directives -/

/-- The characters of a hexadecimal field are digits and the sign. -/
theorem Text.IsHexNumber.mem {s : String} {n : Nat} (h : Text.IsHexNumber s n) {c : Char}
    (hc : c ∈ s.toList) : Text.isHexDigit c = true ∨ c = '+' := by
  have run {cs : List Char} (hrun : Text.IsHexRun cs n) (hmem : c ∈ cs) :
      Text.isHexDigit c = true := by
    obtain ⟨-, ds, hds, -⟩ := hrun
    have hd := List.mem_map_of_mem (f := Text.hexDigit?) hmem
    rw [hds] at hd
    obtain ⟨d, -, hd⟩ := List.mem_map.mp hd
    rw [Text.isHexDigit, ← hd, Option.isSome_some]
  rcases h with hrun | ⟨cs, hs, hrun⟩
  · exact .inl (run hrun hc)
  · rw [hs] at hc
    rcases List.mem_cons.mp hc with rfl | hc
    · exact .inr rfl
    · exact .inl (run hrun hc)

/-- A hexadecimal field names no directive, in any case. -/
theorem Directive.ofToken?_of_isHexNumber {s : String} {n : Nat} (h : Text.IsHexNumber s n) :
    ofToken? s = none := by
  have hascii : ∀ c ∈ s.toList, Text.isAscii c = true := by
    intro c hc
    rcases h.mem hc with hd | rfl
    · exact Text.isAscii_of_isHexDigit hd
    · decide
  cases hs : ofToken? s with
  | none => rfl
  | some d =>
    obtain ⟨c, hc, hd⟩ := d.exists_mem_name
    have hplus : c ≠ '+' := by
      rintro rfl
      rcases d with _ | _ | (_ | _ | _ | _) <;> revert hc <;> decide
    rw [ofToken?_eq_some_iff] at hs
    rw [← hs, Text.toList_uppercase_of_ascii hascii] at hc
    obtain ⟨b, hb, rfl⟩ := List.mem_map.mp hc
    rcases h.mem hb with hb | rfl
    · rw [Text.isHexDigit_toUpper hb] at hd
      cases hd
    · exact absurd (by decide) hplus

/-! ### The first symbol of a name -/

namespace SymbolTable

variable {table other : SymbolTable} {name : String} {entry : Symbol}

/-- Tables with the same first entry of a name look it up alike. -/
theorem find?_congr (h : ∀ entry, table.IsFirst name entry ↔ other.IsFirst name entry) :
    table.find? name = other.find? name := by
  apply Option.ext
  intro entry
  rw [find?_eq_some_iff, find?_eq_some_iff, h]

/-- Entries behind the others do not change the first entry of a name. -/
theorem find?_append_of_eq_some (more : List Symbol) (h : table.find? name = some entry) :
    find? ⟨table.entries ++ more⟩ name = some entry := by
  rw [find?_eq] at h ⊢
  rw [List.find?_append, h, Option.some_or]

end SymbolTable

namespace Encoding

variable {symbols other : SymbolTable} {layout : Layout}

/-! ### Single lines -/

/-- A line of two to four tokens. -/
def IsEntry (tokens : List String) : Prop := 2 ≤ tokens.length ∧ tokens.length ≤ 4

/-- A code with direct addressing: a byte in hexadecimal whose two low bits are one. -/
def IsDirect (code : String) : Prop :=
  ∃ n < 256, n % 4 = 1 ∧ Text.IsHexNumber (Text.uppercase code) n

open Listing (Entry)

/-- A line is refused as an entry exactly when it has fewer than two or more than four tokens. -/
theorem parse_eq_error_iff {tokens : List String} {fault : Fault} :
    Entry.parse tokens = .error fault ↔ ¬ IsEntry tokens ∧ fault = .malformedEntry := by
  rw [IsEntry]
  match tokens with
  | [] => simp [Entry.parse, eq_comm]
  | [_] => simp [Entry.parse, eq_comm]
  | [_, _] => simp [Entry.parse]
  | [_, _, _] => simp [Entry.parse]
  | [_, _, _, _] => simp [Entry.parse]
  | _ :: _ :: _ :: _ :: _ :: _ => simp [Entry.parse, eq_comm]

/-- The faults for which a line can be refused. -/
def lineFaults : List Fault :=
  [.malformedEntry, .missingOperand, .operand .notByteString, .operand .reserveCount,
    .operand .notRegisters, .unknownCode, .unknownMode, .undefinedSymbol]

private theorem map_eq_error_iff {ε α β : Type} {f : α → β} {x : Except ε α} {e : ε} :
    x.map f = .error e ↔ x = .error e := by
  cases x <;> simp [Except.map]

private theorem fault_of_required {operands : Operands} {fault : Fault}
    (h : required operands = .error fault) : fault ∈ lineFaults := by
  cases operands with
  | none =>
    cases h
    decide
  | one operand => cases h
  | two a b => cases h

private theorem fault_of_byteString {operand : String} {fault : Fault}
    (h : byteString operand = .error fault) : fault ∈ lineFaults := by
  unfold byteString at h
  split at h
  · cases h
  · split at h
    · cases h
    · split at h
      · cases h
      · cases h
        decide

/-- A count that cannot be read is refused as such. -/
theorem reserveCount_eq_error {operand : String} {fault : Fault}
    (h : reserveCount operand = .error fault) : fault = .operand .reserveCount := by
  unfold reserveCount at h
  split at h
  · exact (Except.error.inj h).symm
  · exact (Except.error.inj h).symm
  · cases h

private theorem fault_of_reserveCount {operand : String} {fault : Fault}
    (h : reserveCount operand = .error fault) : fault ∈ lineFaults := by
  rw [reserveCount_eq_error h]
  decide

private theorem fault_of_storageRecord {slot operand : String} {kind : Storage} {fault : Fault}
    (h : storageRecord slot kind operand = .error fault) : fault ∈ lineFaults := by
  cases kind with
  | word => cases h
  | byte => exact fault_of_byteString (map_eq_error_iff.mp h)
  | reserveWords => exact fault_of_reserveCount (map_eq_error_iff.mp h)
  | reserveBytes => exact fault_of_reserveCount (map_eq_error_iff.mp h)

private theorem fault_of_instructionText {code : String} {operands : Operands} {fault : Fault}
    (h : instructionText symbols code operands = .error fault) : fault ∈ lineFaults := by
  unfold instructionText at h
  split at h
  · cases h
    decide
  · split at h
    · cases operands with
      | none => cases h
      | one operand => cases h
      | two a b =>
        simp only [immediate] at h
        split at h
        · cases h
        · cases h
          decide
    · unfold direct at h
      split at h
      · next hr =>
        cases h
        exact fault_of_required hr
      · split at h
        · cases h
          decide
        · cases h
    · cases h
      decide

private theorem fault_of_entryRecord {entry : Entry} {fault : Fault}
    (h : entryRecord symbols entry = .error fault) : fault ∈ lineFaults := by
  unfold entryRecord at h
  split at h
  · cases ho : required entry.operands with
    | error other =>
      rw [ho] at h
      cases h
      exact fault_of_required ho
    | ok operand =>
      rw [ho] at h
      exact fault_of_storageRecord h
  · exact fault_of_instructionText (map_eq_error_iff.mp h)

private theorem fault_of_parse {tokens : List String} {fault : Fault}
    (h : Entry.parse tokens = .error fault) : fault ∈ lineFaults := by
  rw [(parse_eq_error_iff.mp h).2]
  decide

/-- A line is refused for one of the faults of lines, and stands in its error. -/
theorem error_of_lineRecord {tokens : List String} {e : Error}
    (h : lineRecord symbols tokens = .error e) :
    e.fault ∈ lineFaults ∧ e.line = Token.join tokens := by
  unfold lineRecord at h
  cases hp : Entry.parse tokens with
  | error fault =>
    rw [hp] at h
    cases h
    exact ⟨fault_of_parse hp, rfl⟩
  | ok entry =>
    rw [hp, Except.bind] at h
    cases hr : entryRecord symbols entry with
    | ok record =>
      rw [hr] at h
      cases h
    | error fault =>
      rw [hr] at h
      cases h
      exact ⟨fault_of_entryRecord hr, rfl⟩

/-! ### Direct addressing -/

/-- With direct addressing, a record holds the address of the first symbol of the operand's name; a
line whose operand names no symbol is refused. -/
theorem lineRecord_direct {slot code name : String} {more : List String} (hcode : IsDirect code)
    (hmore : more.length ≤ 1) :
    lineRecord symbols (slot :: code :: name :: more) =
      match symbols.find? name with
      | some entry => .ok (.text (Text.uppercase slot) 4
          (Text.uppercase code ++ Text.hex 6 entry.address))
      | none => .error ⟨.undefinedSymbol, Token.join (slot :: code :: name :: more)⟩ := by
  obtain ⟨n, hn, hmode, hnumber⟩ := hcode
  have hread := Text.readHexBelow?_eq_some_iff.mpr ⟨hnumber, hn⟩
  have hnone := Directive.ofToken?_of_isHexNumber hnumber
  -- both operand shapes have the name in front
  have hrecord (operands : Operands) (ho : required operands = .ok name) :
      entryRecord symbols (.ofWritten slot code operands) =
        match symbols.find? name with
        | some entry => .ok (.text (Text.uppercase slot) 4
            (Text.uppercase code ++ Text.hex 6 entry.address))
        | none => .error .undefinedSymbol := by
    simp only [entryRecord, Entry.ofWritten, hnone, instructionText, hread, hmode, direct, ho]
    cases symbols.find? name <;> rfl
  match more with
  | [] =>
    rw [lineRecord, Entry.parse, Except.bind, hrecord _ rfl]
    cases symbols.find? name <;> rfl
  | [_] =>
    rw [lineRecord, Entry.parse, Except.bind, hrecord _ rfl]
    cases symbols.find? name <;> rfl
  | _ :: _ :: _ =>
    simp at hmore

/-- Only with direct addressing does the text of an instruction depend on the symbols. -/
theorem instructionText_congr {code : String} {operands : Operands}
    (h : ∀ name n, required operands = .ok name → n < 256 → n % 4 = 1 →
      Text.IsHexNumber code n → symbols.find? name = other.find? name) :
    instructionText symbols code operands = instructionText other code operands := by
  unfold instructionText
  split
  · rfl
  · next n hn =>
    obtain ⟨hnumber, hlt⟩ := Text.readHexBelow?_eq_some_iff.mp hn
    split
    · rfl
    · next hmode =>
      unfold direct
      split
      · rfl
      · next name ho => rw [h name n ho hlt hmode hnumber]
    · rfl

private theorem entryRecord_congr {slot code : String} {operands : Operands}
    (h : ∀ name, required operands = .ok name → IsDirect code →
      symbols.find? name = other.find? name) :
    entryRecord symbols (.ofWritten slot code operands) =
      entryRecord other (.ofWritten slot code operands) := by
  have htext : instructionText symbols (Text.uppercase code) operands =
      instructionText other (Text.uppercase code) operands :=
    instructionText_congr fun name n ho hn hmode hnumber ↦ h name ho ⟨n, hn, hmode, hnumber⟩
  simp only [entryRecord, Entry.ofWritten, htext]

/-- A line has the same record, or the same error, for two symbol tables that agree on the name of
its operand; with any addressing but the direct one, for all tables. -/
theorem lineRecord_congr {tokens : List String}
    (h : ∀ slot code name more, tokens = slot :: code :: name :: more → IsDirect code →
      symbols.find? name = other.find? name) :
    lineRecord symbols tokens = lineRecord other tokens := by
  rw [lineRecord, lineRecord]
  match tokens with
  | [] => rfl
  | [_] => rfl
  | [_, _] =>
    rw [Entry.parse, Except.bind, Except.bind, entryRecord_congr]
    intro name ho
    cases ho
  | [_, _, _] =>
    rw [Entry.parse, Except.bind, Except.bind, entryRecord_congr]
    intro name ho hcode
    cases ho
    exact h _ _ _ _ rfl hcode
  | [_, _, _, _] =>
    rw [Entry.parse, Except.bind, Except.bind, entryRecord_congr]
    intro name ho hcode
    cases ho
    exact h _ _ _ _ rfl hcode
  | _ :: _ :: _ :: _ :: _ :: _ => rfl

/-- A line that has a record is an entry. -/
theorem isEntry_of_lineRecord {tokens : List String} {record : Record}
    (h : lineRecord symbols tokens = .ok record) : IsEntry tokens := by
  by_contra hnot
  rw [lineRecord, parse_eq_error_iff.mpr ⟨hnot, rfl⟩] at h
  cases h

/-- A record stays the same when symbols are added behind the others. -/
theorem lineRecord_append {tokens : List String} {record : Record} (more : List Symbol)
    (h : lineRecord symbols tokens = .ok record) :
    lineRecord ⟨symbols.entries ++ more⟩ tokens = .ok record := by
  rw [← h]
  refine (lineRecord_congr fun slot code name rest hs hcode ↦ ?_).symm
  subst hs
  cases hfind : symbols.find? name with
  | some entry => exact (SymbolTable.find?_append_of_eq_some more hfind).symm
  | none =>
    -- without a symbol there is no record
    have hrest : rest.length ≤ 1 := by
      have := (isEntry_of_lineRecord h).2
      simp only [List.length_cons] at this
      omega
    rw [lineRecord_direct hcode hrest, hfind] at h
    cases h

/-! ### Whole listings -/

/-- The outcome of encoding, told line by line. The opening line only needs to be an entry; every
other line needs a record of its own; the entry address must lie inside the program. -/
inductive LineByLine (symbols : SymbolTable) (layout : Layout) :
    List (List String) → Except Error (List Record) → Prop
  | empty : LineByLine symbols layout [] (.error { fault := .emptyProgram, line := "" })
  | opening {first : List String} {rest : List (List String)} :
      ¬ IsEntry first →
      LineByLine symbols layout (first :: rest)
        (.error { fault := .malformedEntry, line := Token.join first })
  | refused {first tokens : List String} {before after : List (List String)} {fault : Fault} :
      IsEntry first → (∀ line ∈ before, ∃ record, lineRecord symbols line = .ok record) →
      lineRecord symbols tokens = .error { fault, line := Token.join tokens } →
      LineByLine symbols layout (first :: (before ++ tokens :: after))
        (.error { fault, line := Token.join tokens })
  | outside {first : List String} {rest : List (List String)} :
      IsEntry first → (∀ line ∈ rest, ∃ record, lineRecord symbols line = .ok record) →
      ¬ (layout.startAddress ≤ layout.entryAddress ∧
        layout.entryAddress ≤ layout.locationCounter) →
      LineByLine symbols layout (first :: rest)
        (.error { fault := .entryOutside layout.entryAddress, line := "" })
  | records {slot : String} {others : List String} {rest : List (List String)}
      {records : List Record} :
      IsEntry (slot :: others) → rest.map (lineRecord symbols) = records.map .ok →
      layout.startAddress ≤ layout.entryAddress → layout.entryAddress ≤ layout.locationCounter →
      LineByLine symbols layout ((slot :: others) :: rest)
        (.ok (.header (Text.uppercase slot) layout.startAddress
          (layout.locationCounter - layout.startAddress) :: records ++
            [.finish layout.entryAddress]))

private theorem headerRecord_of_isEntry {slot : String} {others : List String}
    (h : IsEntry (slot :: others)) :
    headerRecord layout (slot :: others) = .ok (.header (Text.uppercase slot) layout.startAddress
      (layout.locationCounter - layout.startAddress)) := by
  match others with
  | [] => simp [IsEntry] at h
  | [_] => rfl
  | [_, _] => rfl
  | [_, _, _] => rfl
  | _ :: _ :: _ :: _ :: _ =>
    simp only [IsEntry, List.length_cons] at h
    omega

private theorem entryInside_iff :
    layout.entryInside = true ↔ layout.startAddress ≤ layout.entryAddress ∧
      layout.entryAddress ≤ layout.locationCounter := by
  simp [Layout.entryInside]

private theorem IsEntry.exists_cons {tokens : List String} (h : IsEntry tokens) :
    ∃ slot others, tokens = slot :: others := by
  have hpos : 0 < tokens.length := by
    have := h.1
    omega
  exact List.exists_cons_of_length_pos hpos

/-- Lines that all have records are encoded to them. -/
theorem exists_collect_eq_ok {lines : List (List String)}
    (h : ∀ line ∈ lines, ∃ record, lineRecord symbols line = .ok record) :
    ∃ records, collect (lineRecord symbols) lines = .ok records := by
  cases hc : collect (lineRecord symbols) lines with
  | ok records => exact ⟨records, rfl⟩
  | error e =>
    obtain ⟨before, line, after, rfl, -, he⟩ := (collect_eq_error_iff _ _ _).mp hc
    obtain ⟨record, hr⟩ := h line (by simp)
    cases hr.symm.trans he

/-- Lines that are encoded to records have records. -/
theorem exists_of_map_eq {lines : List (List String)} {records : List Record}
    (h : lines.map (lineRecord symbols) = records.map .ok) :
    ∀ line ∈ lines, ∃ record, lineRecord symbols line = .ok record := by
  intro line hl
  have hmem := List.mem_map_of_mem (f := lineRecord symbols) hl
  rw [h] at hmem
  obtain ⟨record, -, hr⟩ := List.mem_map.mp hmem
  exact ⟨record, hr.symm⟩

/-- A listing is encoded with the outcome that its lines give it. -/
theorem LineByLine.run_eq {lines : List (List String)} {outcome : Except Error (List Record)}
    (h : LineByLine symbols layout lines outcome) : run symbols layout lines = outcome := by
  cases h with
  | empty => rfl
  | opening hfirst =>
    rw [run, headerRecord, parse_eq_error_iff.mpr ⟨hfirst, rfl⟩]
    rfl
  | refused hfirst hb ht =>
    obtain ⟨slot, others, rfl⟩ := hfirst.exists_cons
    rw [run, headerRecord_of_isEntry hfirst,
      (collect_eq_error_iff _ _ _).mpr ⟨_, _, _, rfl, hb, ht⟩]
  | outside hfirst hr hentry =>
    obtain ⟨slot, others, rfl⟩ := hfirst.exists_cons
    obtain ⟨records, hrecords⟩ := exists_collect_eq_ok hr
    rw [run, headerRecord_of_isEntry hfirst, hrecords, endRecord,
      if_neg (fun hi ↦ hentry (entryInside_iff.mp hi))]
    rfl
  | records hfirst hr hlow hhigh =>
    rw [run, headerRecord_of_isEntry hfirst, (collect_eq_ok_iff _ _ _).mpr hr, endRecord,
      if_pos (entryInside_iff.mpr ⟨hlow, hhigh⟩)]
    rfl

/-- The lines of every listing give it an outcome. -/
theorem exists_lineByLine (symbols : SymbolTable) (layout : Layout) (lines : List (List String)) :
    ∃ outcome, LineByLine symbols layout lines outcome := by
  cases lines with
  | nil => exact ⟨_, .empty⟩
  | cons first rest =>
    by_cases hfirst : IsEntry first
    · cases hc : collect (lineRecord symbols) rest with
      | error e =>
        obtain ⟨before, tokens, after, rfl, hb, he⟩ := (collect_eq_error_iff _ _ _).mp hc
        obtain ⟨fault, line⟩ := e
        obtain ⟨-, rfl⟩ := error_of_lineRecord he
        exact ⟨_, .refused hfirst hb he⟩
      | ok records =>
        have hr := (collect_eq_ok_iff _ _ _).mp hc
        by_cases hentry : layout.startAddress ≤ layout.entryAddress ∧
            layout.entryAddress ≤ layout.locationCounter
        · obtain ⟨slot, others, rfl⟩ := hfirst.exists_cons
          exact ⟨_, .records hfirst hr hentry.1 hentry.2⟩
        · exact ⟨_, .outside hfirst (exists_of_map_eq hr) hentry⟩
    · exact ⟨_, .opening hfirst⟩

/-- A listing is encoded with exactly the outcome that its lines give it. -/
theorem run_eq_iff {lines : List (List String)} {outcome : Except Error (List Record)} :
    run symbols layout lines = outcome ↔ LineByLine symbols layout lines outcome := by
  refine ⟨fun h ↦ ?_, LineByLine.run_eq⟩
  obtain ⟨other, hother⟩ := exists_lineByLine symbols layout lines
  rwa [← h, hother.run_eq]

/-- No line is refused as an empty listing or for the entry address. -/
theorem category_of_mem_lineFaults {fault : Fault} (h : fault ∈ lineFaults) :
    fault.category ≠ .emptyProgram ∧ fault.category ≠ .invalidEntryPoint := by
  have all : ∀ fault ∈ lineFaults,
      fault.category ≠ .emptyProgram ∧ fault.category ≠ .invalidEntryPoint := by decide
  exact all fault h

/-- Only a listing without lines is refused as empty. -/
theorem emptyProgram_iff {lines : List (List String)} :
    (∃ e, run symbols layout lines = .error e ∧ e.fault.category = .emptyProgram) ↔
      lines = [] := by
  constructor
  · rintro ⟨e, he, hcategory⟩
    cases run_eq_iff.mp he with
    | empty => rfl
    | opening hfirst => cases hcategory
    | refused hfirst hb ht =>
      exact absurd hcategory (category_of_mem_lineFaults (error_of_lineRecord ht).1).1
    | outside hfirst hr hentry => cases hcategory
  · rintro rfl
    exact ⟨_, rfl, rfl⟩

/-- Only a listing with a record for each line is refused for the entry address, namely for one that
lies outside the program. -/
theorem invalidEntryPoint_iff {lines : List (List String)} :
    (∃ e, run symbols layout lines = .error e ∧ e.fault.category = .invalidEntryPoint) ↔
      ∃ first rest, lines = first :: rest ∧ IsEntry first ∧
        (∀ line ∈ rest, ∃ record, lineRecord symbols line = .ok record) ∧
        ¬ (layout.startAddress ≤ layout.entryAddress ∧
          layout.entryAddress ≤ layout.locationCounter) := by
  constructor
  · rintro ⟨e, he, hcategory⟩
    cases run_eq_iff.mp he with
    | empty => cases hcategory
    | opening hfirst => cases hcategory
    | refused hfirst hb ht =>
      exact absurd hcategory (category_of_mem_lineFaults (error_of_lineRecord ht).1).2
    | outside hfirst hr hentry => exact ⟨_, _, rfl, hfirst, hr, hentry⟩
  · rintro ⟨first, rest, rfl, hfirst, hr, hentry⟩
    exact ⟨_, (LineByLine.outside hfirst hr hentry).run_eq, rfl⟩

/-- A successful result has a record for each line and one more. -/
theorem length_of_run {lines : List (List String)} {records : List Record}
    (h : run symbols layout lines = .ok records) : records.length = lines.length + 1 := by
  cases run_eq_iff.mp h with
  | records hfirst hr hlow hhigh =>
    have hlength := congrArg List.length hr
    rw [List.length_map, List.length_map] at hlength
    simp [hlength]

/-- A successful result stays the same when symbols are added behind the others. -/
theorem run_append_symbols {lines : List (List String)} {records : List Record}
    (more : List Symbol) (h : run symbols layout lines = .ok records) :
    run ⟨symbols.entries ++ more⟩ layout lines = .ok records := by
  cases run_eq_iff.mp h with
  | @records slot others rest records hfirst hr hlow hhigh =>
    have hsame : rest.map (lineRecord ⟨symbols.entries ++ more⟩) =
        rest.map (lineRecord symbols) := by
      apply List.map_congr_left
      intro line hl
      obtain ⟨record, hrecord⟩ := exists_of_map_eq hr line hl
      rw [hrecord, lineRecord_append more hrecord]
    exact (LineByLine.records hfirst (hsame.trans hr) hlow hhigh).run_eq

/-- A listing is encoded line by line: the first line that has no record of its own decides the
error, then the entry address; an empty listing is the only one without lines to blame. A record
depends on its line and, with direct addressing only, on the first symbol of the operand's name.
Symbols that are added behind the others do not change a successful result. -/
theorem encoding_ordered_and_local (symbols : SymbolTable) (layout : Layout)
    (lines : List (List String)) :
    (∀ outcome, run symbols layout lines = outcome ↔ LineByLine symbols layout lines outcome) ∧
      ((∃ e, run symbols layout lines = .error e ∧ e.fault.category = .emptyProgram) ↔
        lines = []) ∧
      ((∃ e, run symbols layout lines = .error e ∧ e.fault.category = .invalidEntryPoint) ↔
        ∃ first rest, lines = first :: rest ∧ IsEntry first ∧
          (∀ line ∈ rest, ∃ record, lineRecord symbols line = .ok record) ∧
          ¬ (layout.startAddress ≤ layout.entryAddress ∧
            layout.entryAddress ≤ layout.locationCounter)) ∧
      (∀ records, run symbols layout lines = .ok records → records.length = lines.length + 1) ∧
      (∀ other tokens,
        (∀ slot code name more, tokens = slot :: code :: name :: more → IsDirect code →
          ∀ entry, symbols.IsFirst name entry ↔ SymbolTable.IsFirst other name entry) →
        lineRecord symbols tokens = lineRecord other tokens) ∧
      ∀ more records, run symbols layout lines = .ok records →
        run ⟨symbols.entries ++ more⟩ layout lines = .ok records := by
  refine ⟨fun outcome ↦ run_eq_iff, emptyProgram_iff, invalidEntryPoint_iff,
    fun records ↦ length_of_run, fun other tokens h ↦ ?_,
    fun more records ↦ run_append_symbols more⟩
  apply lineRecord_congr
  intro slot code name more hs hcode
  exact SymbolTable.find?_congr (h slot code name more hs hcode)

/-- A label that is defined twice is resolved to its first entry, also when it is defined once more.
A line without a symbol is refused before the line after it, which has too many tokens, and before
the entry address. -/
theorem encoding_ordered_and_local_sample :
    run ⟨[⟨"L1", 263⟩, ⟨"L1", 5⟩] ++ [⟨"L1", 7⟩]⟩
        { locationCounter := 265, startAddress := 256, entryAddress := 256 }
        [["P", "START", "000100"], ["000103", "05", "L1"], ["000107", "FC"]] =
      .ok [.header "P" 256 9, .text "000103" 4 "05000107", .text "000107" 1 "FC", .finish 256] ∧
    LineByLine ⟨[]⟩ { locationCounter := 265, startAddress := 256, entryAddress := 0 }
      [["P", "START"], ["000103", "05", "L1"], ["a", "b", "c", "d", "e"]]
      (.error { fault := .undefinedSymbol, line := "000103 05 L1" }) := by
  have hrun : run ⟨[⟨"L1", 263⟩, ⟨"L1", 5⟩]⟩
      { locationCounter := 265, startAddress := 256, entryAddress := 256 }
      [["P", "START", "000100"], ["000103", "05", "L1"], ["000107", "FC"]] =
      .ok [.header "P" 256 9, .text "000103" 4 "05000107", .text "000107" 1 "FC", .finish 256] := by
    decide +kernel
  have hrefused : run ⟨[]⟩ { locationCounter := 265, startAddress := 256, entryAddress := 0 }
      [["P", "START"], ["000103", "05", "L1"], ["a", "b", "c", "d", "e"]] =
      .error { fault := .undefinedSymbol, line := "000103 05 L1" } := by decide +kernel
  constructor
  · exact (encoding_ordered_and_local _ _ _).2.2.2.2.2 [⟨"L1", 7⟩] _ hrun
  · exact ((encoding_ordered_and_local _ _ _).1 _).mp hrefused

end Encoding

end SicXe
