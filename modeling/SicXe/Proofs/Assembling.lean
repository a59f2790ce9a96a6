import SicXe.Proofs.TypedEncoding

/-!
# Assembling a source

Assembling places a source and encodes the text of the listing. Since that text has the tokens of
the typed lines, all that can go wrong after placing is a label without a definition or an entry
address outside the program, in this order; and the object program of a success holds the typed
record of every line between its header and its end.
-/

namespace SicXe

open Listing (Line)
open Program (linesFrom)

namespace Session

variable {session after : Session} {source : String} {lines : List Line}

/-- A session places exactly the sources that read as a program that fits and whose labels are
new, and keeps the symbols and the layout of the program. -/
theorem place_eq_ok_iff {source : List (List String)} :
    session.place source = (.ok lines, after) ↔
      ∃ p : Program,
        (Placement.grammar session.options session.table).Reads session.options.limit source p ∧
        p.finish ≤ session.options.limit ∧ session.knownSymbols.contains p.name = false ∧
        session.knownSymbols.Fresh p.symbols ∧ lines = p.listing ∧
        after = { session with
          symbols := session.knownSymbols.append p.symbols
          layout := p.layout } := by
  unfold place
  constructor
  · intro h
    split at h
    · cases h
    · next placed symbols hr =>
      obtain ⟨p, hp, hfit, hname, hfresh, rfl, rfl⟩ := Placement.run_eq_ok_iff.mp hr
      obtain ⟨hl, rfl⟩ := Prod.mk.inj h
      exact ⟨p, hp, hfit, hname, hfresh, (Except.ok.inj hl).symm, rfl⟩
  · rintro ⟨p, hp, hfit, hname, hfresh, rfl, rfl⟩
    have hr := Placement.run_eq_ok_iff.mpr ⟨p, hp, hfit, hname, hfresh, rfl, rfl⟩
    rw [hr]

private theorem assemble_of_place (h : session.place (Token.ofText source) = (.ok lines, after)) :
    session.assemble source =
      ((after.encode (Token.ofText (Listing.render lines))).map fun records ↦
        { listing := lines, symbols := after.symbols.entries, records }, after) := by
  unfold assemble
  rw [h]
  cases he : after.encode (Token.ofText (Listing.render lines)) with
  | error e => simp [he, Except.map]
  | ok records => simp [he, Except.map]

/-- Encoding the listing text of a source that was placed has one of the three outcomes. -/
theorem encode_outcome (h : session.place (Token.ofText source) = (.ok lines, after)) :
    Encoding.Outcome after.symbols after.layout lines
      (after.encode (Token.ofText (Listing.render lines))) := by
  obtain ⟨p, hp, hfit, -, -, rfl, rfl⟩ := place_eq_ok_iff.mp h
  rw [encode, Program.ofText_render_listing hp]
  exact Encoding.run_outcome _ p.layout
    (Program.fits_of_mem_items hp hfit session.options.limit_lt)

private theorem entryInside_eq_false_iff {layout : Layout} :
    layout.entryInside = false ↔
      layout.entryAddress < layout.startAddress ∨
        layout.locationCounter < layout.entryAddress := by
  simp only [Layout.entryInside, Bool.and_eq_false_iff, decide_eq_false_iff_not, not_le]

/-- A placed source is assembled when its labels are defined and its entry address lies inside. -/
theorem exists_assembly (h : session.place (Token.ofText source) = (.ok lines, after))
    (hall : ∀ line ∈ lines, ¬ line.IsUnresolved after.symbols)
    (hin : after.layout.entryInside = true) :
    ∃ assembly, session.assemble source = (.ok assembly, after) := by
  have outcome := encode_outcome h
  rw [assemble_of_place h]
  generalize after.encode _ = result at outcome
  cases outcome with
  | @undefined before rest line hlines _ hline =>
    exact absurd hline (hall line (by simp [hlines]))
  | outside _ hout =>
    rw [hin] at hout
    cases hout
  | records => exact ⟨_, rfl⟩

/-- After a source has been placed, assembling it fails for a label without a definition exactly
when a line names one, at the first such line; otherwise for the entry address exactly when it
lies outside the program; otherwise it succeeds. It never fails for another reason. -/
theorem assemble_error_after_place
    (h : session.place (Token.ofText source) = (.ok lines, after)) :
    ((∃ e, (session.assemble source).1 = .error e ∧ e.fault.category = .undefinedSymbol) ↔
        ∃ line ∈ lines, line.IsUnresolved after.symbols) ∧
      (∀ e, (session.assemble source).1 = .error e → e.fault.category = .undefinedSymbol →
        ∃ before line rest, lines = before ++ line :: rest ∧
          (∀ other ∈ before, ¬ other.IsUnresolved after.symbols) ∧
          line.IsUnresolved after.symbols ∧ e.line = line.render) ∧
      ((∀ line ∈ lines, ¬ line.IsUnresolved after.symbols) →
        ((∃ e, (session.assemble source).1 = .error e ∧ e.fault.category = .invalidEntryPoint ∧
            e.line = "") ↔
          after.layout.entryAddress < after.layout.startAddress ∨
            after.layout.locationCounter < after.layout.entryAddress) ∧
        (¬ (after.layout.entryAddress < after.layout.startAddress ∨
            after.layout.locationCounter < after.layout.entryAddress) →
          ∃ assembly, (session.assemble source).1 = .ok assembly)) ∧
      ∀ e, (session.assemble source).1 = .error e →
        e.fault.category = .undefinedSymbol ∨ e.fault.category = .invalidEntryPoint := by
  have outcome := encode_outcome h
  rw [assemble_of_place h, ← entryInside_eq_false_iff]
  generalize after.encode _ = result at outcome
  cases outcome with
  | @undefined before rest line hlines hbefore hline =>
    have hm : line ∈ lines := by simp [hlines]
    refine ⟨iff_of_true ⟨_, rfl, rfl⟩ ⟨line, hm, hline⟩, ?_, ?_, ?_⟩
    · rintro e he -
      obtain rfl := Except.error.inj he
      exact ⟨before, line, rest, hlines, hbefore, hline, rfl⟩
    · exact fun hall ↦ absurd hline (hall line hm)
    · intro e he
      obtain rfl := Except.error.inj he
      exact Or.inl rfl
  | outside hall hin =>
    refine ⟨iff_of_false ?_ ?_, ?_, ?_, ?_⟩
    · rintro ⟨e, he, hcat⟩
      obtain rfl := Except.error.inj he
      cases hcat
    · rintro ⟨line, hm, hline⟩
      exact hall line hm hline
    · intro e he hcat
      obtain rfl := Except.error.inj he
      cases hcat
    · exact fun _ ↦ ⟨iff_of_true ⟨_, rfl, rfl, rfl⟩ hin, fun hout ↦ absurd hin hout⟩
    · intro e he
      obtain rfl := Except.error.inj he
      exact Or.inr rfl
  | records _ hall _ hin =>
    refine ⟨iff_of_false ?_ ?_, ?_, ?_, ?_⟩
    · rintro ⟨e, he, -⟩
      cases he
    · rintro ⟨line, hm, hline⟩
      exact hall line hm hline
    · intro e he
      cases he
    · refine fun _ ↦ ⟨iff_of_false ?_ (by simp [hin]), fun _ ↦ ⟨_, rfl⟩⟩
      rintro ⟨e, he, -⟩
      cases he
    · intro e he
      cases he

private theorem sample_place :
    (start {}).place (Token.ofText Program.sampleText) =
      (.ok Program.sample.listing,
        { start {} with
          symbols := SymbolTable.empty.append Program.sample.symbols
          layout := Program.sample.layout }) := by
  apply place_eq_ok_iff.mpr
  exact ⟨Program.sample, Program.sample_reads, by cbv, rfl, Program.sample_fresh, rfl, rfl⟩

private theorem sample_resolved :
    ∀ line ∈ Program.sample.listing,
      ¬ line.IsUnresolved (SymbolTable.empty.append Program.sample.symbols) := by
  rintro line hl ⟨address, code, name, rfl, hall⟩
  have hname : name = "Last" := by
    simp [Program.listing, Program.sample, linesFrom] at hl
    exact hl.2.2
  have hlast : (⟨"LAST", 268⟩ : Symbol) ∈
      (SymbolTable.empty.append Program.sample.symbols).entries := by
    rw [Program.sample_symbols]
    simp [SymbolTable.append]
  have hsame : Text.sameName "LAST" "Last" = true := by
    simp [Text.sameName_iff, ← String.toList_inj]
  have hdiff := hall _ hlast
  rw [hname, hsame] at hdiff
  cases hdiff

/-- The sample text is placed, its labels are defined and its entry address lies inside, so it is
assembled. Of two sources that are placed and then refused, one jumps to a label without a
definition, and the other begins behind its end. -/
theorem assemble_error_after_place_sample :
    (∃ lines after, (start {}).place (Token.ofText Program.sampleText) = (.ok lines, after) ∧
      (∀ line ∈ lines, ¬ line.IsUnresolved after.symbols) ∧
      ∃ assembly, ((start {}).assemble Program.sampleText).1 = .ok assembly) ∧
    (∃ lines after, (start {}).place (Token.ofText "P START 16\nJMP AWAY\nEND 99") =
        (.ok lines, after) ∧
      ∃ e, ((start {}).assemble "P START 16\nJMP AWAY\nEND 99").1 = .error e ∧
        e.fault.category = .undefinedSymbol ∧ e.line = "000010 05 AWAY") ∧
    ∃ lines after, (start {}).place (Token.ofText "P START 16\nWORD 1\nEND 99") =
        (.ok lines, after) ∧
      ∃ e, ((start {}).assemble "P START 16\nWORD 1\nEND 99").1 = .error e ∧
        e.fault.category = .invalidEntryPoint ∧ e.line = "" := by
  refine ⟨⟨_, _, sample_place, sample_resolved, ?_⟩, ?_, ?_⟩
  · exact ((assemble_error_after_place sample_place).2.2.1 sample_resolved).2 (by cbv)
  · have hplace : (start {}).place (Token.ofText "P START 16\nJMP AWAY\nEND 99") =
        (.ok [.start "P" 16, .body 16 (.instruction 5 (.symbol "AWAY"))],
          { start {} with layout := ⟨20, 16, 99, true, true⟩ }) := by
      decide +kernel
    obtain ⟨hundefined, hline, -⟩ := assemble_error_after_place hplace
    obtain ⟨e, he, hcategory⟩ := hundefined.mpr
      ⟨_, List.mem_cons_of_mem _ List.mem_cons_self, 16, 5, "AWAY", rfl, by
        simp [start, SymbolTable.empty]⟩
    obtain ⟨before, line, rest, hlines, -, ⟨address, code, name, rfl, -⟩, htext⟩ :=
      hline e he hcategory
    -- The only line with an instruction is the jump.
    have hmem : Line.body address (.instruction code (.symbol name)) ∈
        [.start "P" 16, .body 16 (.instruction 5 (.symbol "AWAY"))] := by
      simp [hlines]
    obtain ⟨rfl, rfl, rfl⟩ : address = 16 ∧ code = 5 ∧ name = "AWAY" := by simpa using hmem
    exact ⟨_, _, hplace, e, he, hcategory, htext.trans (by decide +kernel)⟩
  · have hplace : (start {}).place (Token.ofText "P START 16\nWORD 1\nEND 99") =
        (.ok [.start "P" 16, .body 16 (.word 1)],
          { start {} with layout := ⟨19, 16, 99, true, true⟩ }) := by
      decide +kernel
    have hresolved : ∀ line ∈ [Line.start "P" 16, .body 16 (.word 1)],
        ¬ line.IsUnresolved (start {}).symbols := by
      simp [Line.IsUnresolved]
    obtain ⟨houtside, -⟩ := (assemble_error_after_place hplace).2.2.1 hresolved
    exact ⟨_, _, hplace, houtside.mpr (.inr (by decide))⟩

/-- An assembled source was placed and its listing text encoded. -/
theorem assemble_eq_ok {assembly : Assembly}
    (h : session.assemble source = (.ok assembly, after)) :
    session.place (Token.ofText source) = (.ok assembly.listing, after) ∧
      after.encode (Token.ofText (Listing.render assembly.listing)) = .ok assembly.records ∧
      assembly.symbols = after.symbols.entries := by
  unfold assemble at h
  split at h
  · cases h
  · next lines state hp =>
    split at h
    · cases h
    · next records he =>
      obtain ⟨ha, rfl⟩ := Prod.mk.inj h
      obtain rfl := Except.ok.inj ha
      exact ⟨hp, he, rfl⟩

/-- The sample text is assembled, with the listing of the sample program. -/
theorem sample_assembles :
    ∃ assembly after, (start {}).assemble Program.sampleText = (.ok assembly, after) ∧
      assembly.listing = Program.sample.listing := by
  obtain ⟨assembly, h⟩ := exists_assembly sample_place sample_resolved (by cbv)
  have hplace := (assemble_eq_ok h).1
  rw [sample_place] at hplace
  exact ⟨assembly, _, h, (Except.ok.inj (Prod.mk.inj hplace).1).symm⟩

/-- An assembled source is a program whose listing has a record for each line. -/
theorem exists_program_of_assemble {assembly : Assembly}
    (h : session.assemble source = (.ok assembly, after)) :
    ∃ (p : Program) (records : List Record),
      (Placement.grammar session.options session.table).Reads session.options.limit
        (Token.ofText source) p ∧
      session.knownSymbols.Fresh p.symbols ∧
      after.symbols = session.knownSymbols.append p.symbols ∧ after.layout = p.layout ∧
      assembly.listing = p.listing ∧
      (linesFrom p.start p.items).map (Line.record? after.symbols) = records.map some ∧
      assembly.records =
        .header (Text.uppercase p.name) p.start (p.finish - p.start) :: records ++
          [.finish (p.entry.getD p.start)] := by
  obtain ⟨hp, he, -⟩ := assemble_eq_ok h
  have outcome := encode_outcome hp
  obtain ⟨p, hr, -, -, hfresh, hlines, rfl⟩ := place_eq_ok_iff.mp hp
  rw [he] at outcome
  generalize hrec : assembly.records = objects at outcome
  cases outcome with
  | @records label address body records hopen hall hmap hin =>
    rw [hlines, Program.listing] at hopen
    obtain ⟨hs, rfl⟩ := List.cons.inj hopen
    obtain ⟨rfl, rfl⟩ := Line.start.inj hs
    exact ⟨p, records, hr, hfresh, rfl, rfl, hlines, hmap, rfl⟩

/-- The object program of an assembled source is the header with the name of the program in upper
case, the record that every further line of the listing is encoded as, and the end. -/
theorem assemble_records_typed {assembly : Assembly}
    (h : session.assemble source = (.ok assembly, after)) :
    ∃ name tokens rest body records,
      Token.ofText source = (name :: tokens) :: rest ∧
      assembly.listing = .start (Text.uppercase name) after.layout.startAddress :: body ∧
      assembly.symbols = after.symbols.entries ∧
      List.Forall₂ (Line.Encodes after.symbols) body records ∧
      assembly.records =
        .header (Text.uppercase name) after.layout.startAddress
            (after.layout.locationCounter - after.layout.startAddress) ::
          records ++ [.finish after.layout.entryAddress] := by
  obtain ⟨p, records, ⟨first, rest, hsource, ⟨s, operand, hs, -, hl, -, -⟩, -⟩, -, -, hlayout,
    hlisting, hmap, hrecords⟩ := exists_program_of_assemble h
  obtain ⟨name, tokens, rfl, hlabel, hname⟩ := Grammar.exists_isLabel hs hl
  have hup : Text.uppercase (Text.uppercase name) = Text.uppercase name :=
    Text.uppercase_uppercase (Grammar.isIdentifier_of_isLabel hlabel).isAscii
  refine ⟨name, tokens, rest, linesFrom p.start p.items, records, hsource, ?_,
    (assemble_eq_ok h).2.2, Listing.forall₂_encodes_of_map hmap, ?_⟩
  · rw [hlisting, hlayout, ← hname]
    rfl
  · rw [hrecords, hlayout, hname, hup]
    rfl

/-- A text with a line for each kind of record, under a table with an instruction of one byte. -/
def typedText : String :=
  "Prog START 256\nw WORD 74565\nBYTE 10\nBYTE C\"Hi\"\nBYTE x\"0aF1\"\nRESW 2\nRESB 16\n" ++
    "FIX\nADD R1 R16\nADD 7\nJMP 300\nJMP W\nEND"

/-- The session in which the text is assembled. -/
def typedSession : Session :=
  { start {} with table := ⟨OpTable.standard.definitions ++ [⟨"FIX", 0x31, .one⟩]⟩ }

/-- The lines of the text after its opening line. -/
def typedLines : List Line :=
  [.body 256 (.word 74565), .body 259 (.byte 10), .body 260 (.literal "C\"Hi\""),
    .body 262 (.literal "X\"0AF1\""), .body 266 (.reserveWords 2), .body 272 (.reserveBytes 16),
    .body 288 (.instruction 0xC4 .none), .body 289 (.instruction 0x10 (.registers "R1" "R16")),
    .body 291 (.instruction 0x10 (.byte 7)), .body 293 (.instruction 0x04 (.address 300)),
    .body 297 (.instruction 0x05 (.symbol "W"))]

/-- The records of these lines. -/
def typedRecords : List Record :=
  [.text "000100" 3 "012345", .text "000103" 1 "0A", .text "000104" 2 "4869",
    .text "000106" 4 "0AF1", .reserve "00010A" 6, .reserve "000110" 16,
    .text "000120" 1 "C4", .text "000121" 2 "10110", .text "000123" 1 "1007",
    .text "000125" 3 "0400012C", .text "000129" 4 "05000100"]

/-- The lines of the text are encoded as the records between its header and its end. -/
theorem assemble_records_typed_sample :
    ∃ after, typedSession.assemble typedText =
        (.ok { listing := .start "PROG" 256 :: typedLines
               symbols := [⟨"W", 256⟩]
               records := .header "PROG" 256 45 :: typedRecords ++ [.finish 256] }, after) ∧
      List.Forall₂ (Line.Encodes after.symbols) typedLines typedRecords := by
  have hrun : (typedSession.assemble typedText).1 =
      .ok { listing := .start "PROG" 256 :: typedLines
            symbols := [⟨"W", 256⟩]
            records := .header "PROG" 256 45 :: typedRecords ++ [.finish 256] } := by
    decide +kernel
  obtain ⟨after, h⟩ := exists_after hrun
  obtain ⟨name, tokens, rest, body, records, -, hlisting, -, hencodes, hrecords⟩ :=
    assemble_records_typed h
  obtain ⟨-, rfl⟩ := List.cons.inj hlisting
  obtain ⟨-, hrest⟩ := List.cons.inj hrecords
  obtain ⟨rfl, -⟩ := List.append_inj' hrest rfl
  exact ⟨after, h, hencodes⟩

end Session

end SicXe
