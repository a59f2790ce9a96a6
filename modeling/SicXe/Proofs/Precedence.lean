import SicXe.Proofs.Acceptance
import SicXe.Proofs.LetterCase

/-!
# Directives before instructions

A table may define an instruction under any name of letters and digits, also under the name of a
directive. Directives come first when a mnemonic is looked up, so such a definition is never used;
every other one is. Registers and labels do not get in the way of a definition: a mnemonic is found
in its place in the line, and a name that the table defines is no label.
-/

namespace SicXe

open Listing (Content Line Operand)

/-! ### Mnemonics of definitions -/

namespace OpTable

variable {table : OpTable} {d : Definition} {mnemonic : String}

/-- A definition of a well-formed table is found under its name in any case. -/
theorem WellFormed.find?_of_sameName (h : table.WellFormed) (hd : d ∈ table.definitions)
    (hn : Text.sameName mnemonic d.name = true) : table.find? mnemonic = some d := by
  have hdiffer : table.definitions.Pairwise fun a b ↦ Text.nameKey a.name ≠ Text.nameKey b.name :=
    h.names_differ.imp fun hab he ↦ by simp [Text.sameName, he] at hab
  simp only [find?, Text.sameName, (Text.sameName_iff _ _).mp hn]
  exact find?_key_of_mem (fun d : Definition ↦ Text.nameKey d.name) hdiffer hd

/-- A mnemonic is kept in the upper-case form of the name that it stands for. -/
theorem WellFormed.uppercase_of_sameName (h : table.WellFormed) (hd : d ∈ table.definitions)
    (hn : Text.sameName mnemonic d.name = true) :
    Text.uppercase mnemonic = Text.nameKey d.name :=
  calc
    Text.uppercase mnemonic = Text.uppercase (Text.nameKey mnemonic) :=
      (Text.uppercase_nameKey mnemonic).symm
    _ = Text.uppercase (Text.nameKey d.name) := by rw [(Text.sameName_iff _ _).mp hn]
    _ = Text.uppercase d.name := Text.uppercase_nameKey d.name
    _ = Text.nameKey d.name := Text.uppercase_of_ascii (h.names d hd).isIdentifier.isAscii

end OpTable

namespace Grammar

variable {g : Grammar} {limit : Nat} {d : Definition} {mnemonic : String}

/-- The mnemonic of a definition stands for the directive of that name, if there is one, and for the
definition otherwise. -/
theorem operation?_of_sameName (h : g.table.WellFormed) (hd : d ∈ g.table.definitions)
    (hn : Text.sameName mnemonic d.name = true) :
    g.operation? (Text.uppercase mnemonic) =
      some (((Directive.ofToken? d.name).map .directive).getD (.instruction d)) := by
  have hfind : g.table.find? (Text.nameKey d.name) = some d :=
    h.find?_of_sameName hd (by rw [Text.sameName_nameKey, Text.sameName_iff])
  rw [h.uppercase_of_sameName hd hn, operation?, Directive.ofToken?_nameKey, hfind]
  cases Directive.ofToken? d.name <;> rfl

/-- A line that begins with an instruction has it as its mnemonic, whatever the operands are. -/
theorem statement?_of_isInstruction (h : g.isInstruction mnemonic = true) (operands : Operands) :
    g.statement? (mnemonic :: operands.toList) = some (.ofWritten none mnemonic operands) := by
  have hmnemonic : g.isMnemonic mnemonic = true := by rw [isMnemonic, h, Bool.true_or]
  have hlabel := isLabel_eq_false_of_isMnemonic hmnemonic
  cases operands <;> simp [statement?, Operands.toList, h, hmnemonic, hlabel]

/-- A label, the start directive and a number open a program. -/
theorem isStart_written {label token : String} {start : Nat} (hl : g.isLabel label = true)
    (hs : Placement.IsNumber 1 limit token start) :
    g.IsStart limit [label, "START", token] (Text.uppercase label) start := by
  have hmnemonic : g.isMnemonic "START" = true := by
    rw [isMnemonic, Bool.or_eq_true]
    exact Or.inr (by decide)
  refine ⟨.ofWritten (some label) "START" (.one token), token, ?_, ?_, rfl, rfl, ?_⟩
  · simp [statement?, hl, hmnemonic]
  · have hstart : Directive.ofToken? (Text.uppercase "START") = some .start := by decide
    exact operation?_eq_directive_iff.mpr hstart
  · exact Placement.startAddress_eq_ok_iff.mpr hs

/-- The end directive alone closes a program. -/
theorem isEnd_written (g : Grammar) (limit : Nat) : g.IsEnd limit ["END"] none none := by
  have hend : Text.sameName "END" "END" = true := (Text.sameName_iff _ _).mpr rfl
  refine ⟨.ofWritten none "END" .none, ?_, ?_, rfl, rfl⟩
  · simp [statement?, hend]
  · exact operation?_eq_directive_iff.mpr (by decide)

end Grammar

/-! ### Operands of definitions -/

/-- Operands without labels that an instruction of a width takes: none, two registers or a byte, or
an address; with what they are in a listing. -/
inductive Width.Denotes : Width → Operands → Operand → Prop
  | none : Denotes .one .none .none
  | registers {i j : Nat} : 1 ≤ i ∧ i ≤ 16 → 1 ≤ j ∧ j ≤ 16 →
      Denotes .two (.two (Register.name i) (Register.name j))
        (.registers (Register.name i) (Register.name j))
  | byte {token : String} {value : UInt8} :
      Placement.IsNumber 0 255 token value.toNat → Denotes .two (.one token) (.byte value)
  | address {token : String} {value : Nat} :
      Placement.IsNumber 0 maxField token value → Denotes .four (.one token) (.address value)

/-- Operands that an instruction takes take up the bytes of its width, with the code byte. -/
theorem Width.Denotes.size_eq {width : Width} {operands : Operands} {operand : Operand}
    (h : width.Denotes operands operand) : operand.size = width.bytes := by
  cases h <;> rfl

namespace Placement

variable {g : Grammar}

/-- An instruction with operands that it takes has its code byte and these operands as content. -/
theorem instructionContent_of_denotes {d : Definition} {operands : Operands} {operand : Operand}
    (h : d.width.Denotes operands operand) :
    instructionContent g d operands = .ok (.instruction d.codeByte operand) := by
  unfold instructionContent
  generalize d.width = width at h
  cases h with
  | none => rfl
  | registers hi hj =>
    have ha := Register.isName_iff.mpr ⟨_, hi, rfl⟩
    have hb := Register.isName_iff.mpr ⟨_, hj, rfl⟩
    simp [ha, hb]
  | @byte token value hv =>
    have hn : number 0 255 token = .ok value.toNat := number_eq_ok_iff.mpr hv
    simp [hn, Except.map]
  | @address token value hv =>
    have hl : g.isLabel token = false := by
      cases hl : g.isLabel token with
      | false => rfl
      | true =>
        -- A label begins with a letter, so it is no number.
        have hread := Text.readDecimal?_eq_some_iff.mpr hv.1
        rw [(Grammar.isIdentifier_of_isLabel hl).readDecimal?] at hread
        cases hread
    have hread : (Text.readDecimal? token).bind (inRange? 0 maxField) = some value :=
      Option.bind_eq_some_iff.mpr (isNumber_iff.mp hv)
    simp [Operands.single, Except.bind, addressContent, hl, hread]

/-! ### Programs of one instruction -/

/-- A program of one line that takes up memory is placed, if it fits and its name is new. -/
theorem run_of_isItem (options : Options) {table : OpTable} {known : SymbolTable}
    {label token : String} {tokens : List String} {start : Nat} {c : Content}
    (hlabel : (grammar options table).isLabel label = true) (hnew : known.contains label = false)
    (hstart : IsNumber 1 options.limit token start)
    (hitem : (grammar options table).IsItem tokens ⟨none, c⟩)
    (hfit : start + c.size ≤ options.limit) :
    ∃ placed, run options table known [[label, "START", token], tokens, ["END"]] =
        (.ok placed, known) ∧
      placed.lines = [.start (Text.uppercase label) start, .body start c] := by
  have hreads : (grammar options table).Reads options.limit
      [[label, "START", token], tokens, ["END"]]
      ⟨Text.uppercase label, start, [⟨none, c⟩], none, none⟩ :=
    ⟨_, _, rfl, Grammar.isStart_written hlabel hstart,
      .item hitem (.close (Grammar.isEnd_written _ _))⟩
  have hname : known.contains (Text.uppercase label) = false := by
    rw [Text.uppercase_of_ascii (Grammar.isIdentifier_of_isLabel hlabel).isAscii,
      SymbolTable.contains, SymbolTable.find?_nameKey]
    exact hnew
  have hfinish : Program.finish ⟨Text.uppercase label, start, [⟨none, c⟩], none, none⟩ ≤
      options.limit := by
    simpa [Program.finish, Program.extent] using hfit
  refine ⟨_, run_eq_ok_iff.mpr ⟨_, hreads, hfinish, hname, trivial, rfl, ?_⟩, rfl⟩
  exact (SymbolTable.append_nil known).symm

/-- In a program that consists of one instruction, written in any case and with operands that it
takes, a definition of the table is honoured exactly when its name is no directive: the program is
placed, and the line of the instruction has the start address, four times the opcode as its code
byte and the operands as given. -/
theorem definition_honoured_iff {table : OpTable} {known : SymbolTable} {d : Definition}
    {label token mnemonic : String} {operands : Operands} {operand : Operand} {start : Nat}
    (ht : table.Accepted) (hd : d ∈ table.definitions)
    (hlabel : (grammar {} table).isLabel label = true) (hnew : known.contains label = false)
    (hstart : IsNumber 1 16777000 token start) (hn : Text.sameName mnemonic d.name = true)
    (hop : d.width.Denotes operands operand) :
    (∃ placed final code,
        run {} table known [[label, "START", token], mnemonic :: operands.toList, ["END"]] =
          (.ok placed, final) ∧
        placed.lines = [.start (Text.uppercase label) start,
          .body start (.instruction code operand)] ∧
        code.toNat = 4 * d.opcode.toNat) ↔
      Directive.isName d.name = false := by
  have hw := ht.wellFormed
  have hinstruction : (grammar {} table).isInstruction mnemonic = true := by
    simp [Grammar.isInstruction, OpTable.contains, grammar, hw.find?_of_sameName hd hn]
  have hstatement := Grammar.statement?_of_isInstruction hinstruction operands
  have hoperation := Grammar.operation?_of_sameName (g := grammar {} table) hw hd hn
  constructor
  · rintro ⟨placed, final, code, hrun, hlines, -⟩
    obtain ⟨p, hreads, -, -, -, rfl, -⟩ := run_eq_ok_iff.mp hrun
    have hbody : p.listing[1]? = some (.body start (.instruction code operand)) := by
      change p.listing = _ at hlines
      rw [hlines]
      rfl
    obtain ⟨tokens, hline, s, hs, hc⟩ := hreads.emits hbody
    obtain rfl := Option.some.inj hline
    obtain rfl := Option.some.inj (hstatement.symm.trans hs)
    obtain ⟨d', ho, -⟩ := content_eq_instruction hc
    -- The line is an instruction, so its mnemonic stands for one.
    have hinstr := hoperation.symm.trans ho
    cases hname : Directive.ofToken? d.name with
    | none => simp [Directive.isName, hname]
    | some directive => simp [hname] at hinstr
  · intro hname
    have hnone : Directive.ofToken? d.name = none := by simpa [Directive.isName] using hname
    rw [hnone] at hoperation
    have hcontent : content (grammar {} table) (.ofWritten none mnemonic operands) =
        .ok (.instruction d.codeByte operand) := by
      simp only [content, Statement.ofWritten, hoperation]
      exact instructionContent_of_denotes hop
    have hsize : operand.size ≤ 4 := by
      rw [hop.size_eq]
      cases d.width <;> decide
    obtain ⟨hread, hpos, hle⟩ := hstart
    obtain ⟨placed, hrun, hlines⟩ := run_of_isItem {} hlabel hnew
      ⟨hread, hpos, Nat.le_trans hle (by decide)⟩ ⟨_, hstatement, rfl, hcontent⟩
      (Nat.le_trans (Nat.add_le_add hle hsize) (by decide))
    refine ⟨placed, known, d.codeByte, hrun, hlines, ?_⟩
    have hopcode : d.opcode.toNat ≤ 63 := ht.opcode_le d hd
    rw [d.toNat_codeByte, Nat.mod_eq_of_lt (by omega)]

/-- In the standard table the jump is honoured in lower case, with a decimal address. -/
theorem definition_honoured_iff_jump :
    ∃ placed final code,
      run {} .standard .empty [["P", "START", "256"], ["jmp", "7"], ["END"]] =
        (.ok placed, final) ∧
      placed.lines = [.start (Text.uppercase "P") 256, .body 256 (.instruction code (.address 7))] ∧
      code.toNat = 4 := by
  have hmem : (⟨"JMP", 1, .four⟩ : Definition) ∈ OpTable.standard.definitions := by decide
  have hlabel : (grammar {} .standard).isLabel "P" = true := by cbv
  have hstart : IsNumber 1 16777000 "256" 256 :=
    ⟨Text.readDecimal?_eq_some_iff.mp (by decide), by decide, by decide⟩
  have hname : Text.sameName "jmp" "JMP" = true := by cbv
  have hop : Width.Denotes .four (.one "7") (.address 7) :=
    .address ⟨Text.readDecimal?_eq_some_iff.mp (by decide), by decide, by decide⟩
  exact (definition_honoured_iff .standard hmem hlabel rfl hstart hname hop).mpr (by decide)

/-- A table may define an instruction with the name of a directive, but a program cannot use it: the
line is taken for the directive, which lacks its operand. -/
theorem word_definition_shadowed :
    ∃ table, OpTable.ofRows [⟨"WORD", "01", "1"⟩] = .ok table ∧
      (⟨"WORD", 1, .one⟩ : Definition) ∈ table.definitions ∧
      (grammar {} table).isLabel "P" = true ∧
      ∀ placed final, run {} table .empty [["P", "START", "1"], ["WORD"], ["END"]] ≠
        (.ok placed, final) := by
  refine ⟨⟨[⟨"WORD", 1, .one⟩]⟩, by decide +kernel, by decide, by decide +kernel, ?_⟩
  have hrun : run {} ⟨[⟨"WORD", 1, .one⟩]⟩ .empty [["P", "START", "1"], ["WORD"], ["END"]] =
      (.error ⟨.operandCount .noneForOne, "WORD"⟩, .empty) := by
    decide +kernel
  intro placed final h
  rw [hrun] at h
  cases h

end Placement

end SicXe
