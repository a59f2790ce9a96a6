import SicXe.Proofs.History
import SicXe.Proofs.LetterCase

/-!
# Decoding instructions

An encoded instruction can be decoded from the length and the digits of its record. The first two
digits are the code byte. The length and the presence of further digits tell the forms of operands
apart, and each form reads back: register numbers are a prefix code, since no register has number
zero, and a label is found from its address, since no two labels of a program share one. Only the
case of a label is lost. The code byte itself is the opcode of one table entry, which gives the upper
six bits, and the addressing mode, which is set for labels alone.
-/

namespace SicXe

open Listing (Content Line Operand)

/-! ### Registers -/

namespace Register

/-- The register number at the head of written digits. No register has number zero, so a zero after
a one is the second digit of sixteen. -/
def read? : List Char → Option (Nat × List Char)
  | '1' :: '0' :: rest => some (16, rest)
  | c :: rest => (Text.hexDigit? c).map (·, rest)
  | [] => none

/-- A register number is read back from the head of digits, if no zero follows it. -/
theorem read?_hex {n : Nat} (h : 1 ≤ n ∧ n ≤ 16) {r : List Char} (hr : r.head? ≠ some '0') :
    read? ((Text.hex 1 n).toList ++ r) = some (n, r) := by
  by_cases h16 : n = 16
  · subst h16
    have digits : (Text.hex 1 16).toList = ['1', '0'] := by cbv
    rw [digits]
    rfl
  · have hn : n < 16 := by omega
    have digits : (Text.hex 1 n).toList = [Text.hexDigit n] := by
      rw [Text.toList_hex, Text.hexDigits, if_pos hn]
      rfl
    rw [digits, List.singleton_append]
    unfold read?
    split
    · next heq =>
      obtain ⟨-, rfl⟩ := List.cons.inj heq
      exact absurd rfl hr
    · next heq =>
      obtain ⟨rfl, rfl⟩ := List.cons.inj heq
      rw [Text.hexDigit?_hexDigit hn]
      rfl
    · next heq => cases heq

/-- The number of a register does not begin with a zero. -/
theorem head?_hex_ne_zero {n : Nat} (h : 1 ≤ n ∧ n ≤ 16) :
    (Text.hex 1 n).toList.head? ≠ some '0' := by
  have all : ∀ m : Fin 16, (Text.hex 1 (m + 1)).toList.head? ≠ some '0' := by decide +kernel
  have := all ⟨n - 1, by omega⟩
  rwa [Nat.sub_add_cancel h.1] at this

/-- The registers whose numbers follow each other in digits. -/
def pair? (digits : List Char) : Option (String × String) := do
  let (i, rest) ← read? digits
  let (j, _) ← read? rest
  some (name i, name j)

/-- Two registers are read back from the digits of their numbers. -/
theorem pair?_hex {first second : String} {i j : Nat} (hi : number? first = some i)
    (hj : number? second = some j) :
    pair? ((Text.hex 1 i).toList ++ (Text.hex 1 j).toList) = some (first, second) := by
  obtain ⟨hfirst, rfl⟩ := eq_name_of_number? hi
  obtain ⟨hsecond, rfl⟩ := eq_name_of_number? hj
  have hlast : read? (Text.hex 1 j).toList = some (j, []) := by
    simpa using read?_hex hsecond (r := [])
  simp [pair?, read?_hex hfirst (head?_hex_ne_zero hsecond), hlast]

example : pair? "110".toList = some ("R1", "R16") ∧ pair? "101".toList = some ("R16", "R1") := by
  cbv

end Register

/-! ### Labels -/

namespace SymbolTable

/-- The first entry with an address. -/
def atAddress? (table : SymbolTable) (address : Nat) : Option Symbol :=
  table.entries.find? fun entry ↦ entry.address == address

/-- Where addresses rise, an entry is found from its address. -/
theorem atAddress?_address {table : SymbolTable} {entry : Symbol}
    (h : table.entries.Pairwise fun a b ↦ a.address < b.address) (hm : entry ∈ table.entries) :
    table.atAddress? entry.address = some entry :=
  find?_key_of_mem Symbol.address (h.imp fun hlt ↦ Nat.ne_of_lt hlt) hm

end SymbolTable

/-! ### Instructions -/

namespace Listing

open Text (hex hexDigit? readDigits?)

/-- The addressing mode of an operand: one for a label, zero for all others. -/
def Operand.mode : Operand → Nat
  | symbol _ => 1
  | _ => 0

/-- A well-formed operand has the addressing mode in the low bits of the code byte. -/
theorem Operand.WellFormed.mode_eq {code : UInt8} {operand : Operand}
    (h : operand.WellFormed code) : code.toNat % 4 = operand.mode := by
  cases operand with
  | none => exact h
  | registers first second => exact h.1
  | byte value => exact h
  | address value => exact h.1
  | symbol name => exact h.1

/-- The operand of an encoded instruction, from the length of the record and the digits after the
code byte; a label is given in upper case. -/
def Operand.decode? (symbols : SymbolTable) : Nat → List Char → Option Operand
  | 1, [] => some none
  | 1, digits => (readDigits? 16 hexDigit? digits).map fun n ↦ byte (UInt8.ofNat n)
  | 2, digits => (Register.pair? digits).map fun (first, second) ↦ registers first second
  | 3, digits => (readDigits? 16 hexDigit? digits).map address
  | 4, digits =>
    ((readDigits? 16 hexDigit? digits).bind symbols.atAddress?).map fun entry ↦
      symbol (Text.nameKey entry.name)
  | _, _ => .none

/-- The text of an instruction is its code byte and then digits from which the operand is decoded,
apart from the case of a label. -/
theorem Operand.exists_digits_of_text? {symbols : SymbolTable}
    (hrise : symbols.entries.Pairwise fun a b ↦ a.address < b.address) {code : UInt8}
    {operand : Operand} {length : Nat} {payload : String}
    (h : operand.text? symbols code = some (length, payload)) :
    ∃ digits, payload = hex 2 code.toNat ++ digits ∧
      decode? symbols length digits.toList = some operand.foldCase := by
  cases operand with
  | none =>
    obtain ⟨rfl, rfl⟩ := Prod.mk.inj (Option.some.inj h)
    exact ⟨"", String.append_empty.symm, rfl⟩
  | registers first second =>
    simp only [text?] at h
    split at h
    · next i j hi hj =>
      obtain ⟨rfl, rfl⟩ := Prod.mk.inj (Option.some.inj h)
      refine ⟨hex 1 i ++ hex 1 j, String.append_assoc, ?_⟩
      rw [decode?, String.toList_append, Register.pair?_hex hi hj]
      rfl
    · cases h
  | byte value =>
    obtain ⟨rfl, rfl⟩ := Prod.mk.inj (Option.some.inj h)
    refine ⟨hex 2 value.toNat, rfl, ?_⟩
    rw [decode?]
    · rw [Text.readDigits?_hex, Option.map_some, UInt8.ofNat_toNat]
      rfl
    · -- A byte has digits, which sets it apart from an instruction without operand.
      exact Text.toList_hex_ne_nil 2 value.toNat
  | address value =>
    obtain ⟨rfl, rfl⟩ := Prod.mk.inj (Option.some.inj h)
    refine ⟨hex 6 value, rfl, ?_⟩
    rw [decode?, Text.readDigits?_hex]
    rfl
  | symbol name =>
    obtain ⟨entry, hfind, he⟩ := Option.map_eq_some_iff.mp h
    obtain ⟨rfl, rfl⟩ := Prod.mk.inj he
    refine ⟨hex 6 entry.address, rfl, ?_⟩
    have hentry := SymbolTable.atAddress?_address hrise (List.mem_of_find?_eq_some hfind)
    rw [SymbolTable.find?_eq] at hfind
    have hsame := List.find?_some hfind
    rw [decode?, Text.readDigits?_hex, Option.bind_some, hentry, Option.map_some,
      (Text.sameName_iff _ _).mp hsame]
    rfl

/-- The code byte and the operand of an encoded instruction. -/
def decode? (symbols : SymbolTable) (length : Nat) (payload : String) :
    Option (UInt8 × Operand) := do
  let code ← readDigits? 16 hexDigit? (payload.toList.take 2)
  let operand ← Operand.decode? symbols length (payload.toList.drop 2)
  some (UInt8.ofNat code, operand)

/-- An encoded instruction is decoded to itself, apart from the case of a label. -/
theorem decode?_text? {symbols : SymbolTable}
    (hrise : symbols.entries.Pairwise fun a b ↦ a.address < b.address) {code : UInt8}
    {operand : Operand} {length : Nat} {payload : String}
    (h : operand.text? symbols code = some (length, payload)) :
    decode? symbols length payload = some (code, operand.foldCase) := by
  obtain ⟨digits, rfl, hdigits⟩ := Operand.exists_digits_of_text? hrise h
  have hlen := Text.length_hex_byte code
  simp [decode?, String.toList_append, List.take_left' hlen, List.drop_left' hlen,
    Text.readDigits?_hex, hdigits]

end Listing

namespace Grammar

variable {g : Grammar} {limit : Nat}

/-- The code byte of a placed instruction holds the opcode of a definition and the addressing mode
of the operand. -/
theorem Emits.exists_opcode {tokens : List String} {address : Nat} {code : UInt8}
    {operand : Operand} (h : g.Emits limit tokens (.body address (.instruction code operand))) :
    code.toNat % 4 = operand.mode ∧
      ∃ d ∈ g.table.definitions, code.toNat / 4 = d.opcode.toNat % 64 := by
  obtain ⟨s, -, hc⟩ := h
  have hmode : operand.WellFormed code := Placement.content_wellFormed hc
  obtain ⟨d, ho, hi⟩ := Placement.content_eq_instruction hc
  have hd := List.mem_of_find?_eq_some (operation?_eq_instruction_iff.mp ho).2
  refine ⟨hmode.mode_eq, d, hd, ?_⟩
  have hbyte := d.toNat_codeByte
  rcases Placement.instructionContent_eq_ok hi with ⟨operand', he, -⟩ | ⟨name, he, -⟩
  · rw [(Content.instruction.inj he).1]
    omega
  · rw [(Content.instruction.inj he).1, d.toNat_codeByte_or_one]
    omega

end Grammar

/-- In a well-formed table the opcode of a definition occurs once. -/
theorem OpTable.WellFormed.count_opcode {table : OpTable} (h : table.WellFormed) {d : Definition}
    (hd : d ∈ table.definitions) :
    (table.definitions.map fun d ↦ d.opcode.toNat).count d.opcode.toNat = 1 := by
  have hnodup : (table.definitions.map fun d ↦ d.opcode.toNat).Nodup :=
    List.pairwise_map.mpr (h.opcodes_differ.imp fun hne he ↦ hne (UInt8.toNat_inj.mp he))
  exact List.count_eq_one_of_mem hnodup (List.mem_map_of_mem hd)

namespace Session

open Text (hex)

variable {session after : Session} {source : String} {assembly : Assembly}

/-- The record of a placed instruction is the text of its code byte and operand. -/
theorem exists_text_of_instruction (h : session.assemble source = (.ok assembly, after))
    {i address : Nat} {code : UInt8} {operand : Operand}
    (hi : assembly.listing[i]? = some (.body address (.instruction code operand))) :
    ∃ length payload, assembly.records[i]? = some (.text (hex 6 address) length payload) ∧
      operand.text? after.symbols code = some (length, payload) := by
  obtain ⟨p, records, -, -, -, -, hlisting, hmap, hrecords⟩ := exists_program_of_assemble h
  rw [hlisting] at hi
  rw [hrecords]
  -- The opening line has no content, so the line and its record are those of an item.
  cases i with
  | zero => cases Option.some.inj hi
  | succ m =>
    obtain ⟨record, hrecord, htyped⟩ := exists_record_after_header hmap hi
      (.header (Text.uppercase p.name) p.start (p.finish - p.start))
      (.finish (p.entry.getD p.start))
    obtain ⟨⟨length, payload⟩, htext, rfl⟩ := Option.map_eq_some_iff.mp htyped
    exact ⟨length, payload, hrecord, htext⟩

/-- In a source that is assembled without symbols from before, the symbols rise with their
addresses. -/
theorem symbols_rise_of_assemble (hknown : session.knownSymbols = .empty)
    (h : session.assemble source = (.ok assembly, after)) :
    after.symbols.entries.Pairwise fun a b ↦ a.address < b.address := by
  obtain ⟨p, records, hreads, -, hsymbols, -, -, -, -⟩ := exists_program_of_assemble h
  rw [hsymbols, hknown]
  exact Program.symbols_rise hreads

/-- The record of a placed instruction is decoded to it, apart from the case of a label. -/
theorem decode?_of_assemble (hknown : session.knownSymbols = .empty)
    (h : session.assemble source = (.ok assembly, after)) {i address length : Nat} {code : UInt8}
    {operand : Operand} {label payload : String}
    (hi : assembly.listing[i]? = some (.body address (.instruction code operand)))
    (hr : assembly.records[i]? = some (.text label length payload)) :
    Listing.decode? after.symbols length payload = some (code, operand.foldCase) := by
  obtain ⟨length', payload', hrecord, htext⟩ := exists_text_of_instruction h hi
  rw [hrecord] at hr
  obtain ⟨-, rfl, rfl⟩ := Record.text.inj (Option.some.inj hr)
  exact Listing.decode?_text? (symbols_rise_of_assemble hknown h) htext

/-- In a source that is assembled without symbols from before, each instruction has a text record
that begins with its code byte. The upper six bits of that byte are the opcode of exactly one table
entry and its low bits the addressing mode, which is one for a label and zero otherwise. Two
instructions whose records agree in length and payload have the same code byte and, apart from the
case of a label, the same operand. -/
theorem instruction_decodable (ht : session.table.Accepted)
    (hknown : session.knownSymbols = .empty)
    (h : session.assemble source = (.ok assembly, after)) :
    (∀ (i address : Nat) (code : UInt8) (operand : Operand),
      assembly.listing[i]? = some (.body address (.instruction code operand)) →
      ∃ (length : Nat) (digits : String),
        assembly.records[i]? = some (.text (hex 6 address) length (hex 2 code.toNat ++ digits)) ∧
        (session.table.definitions.map fun d ↦ d.opcode.toNat).count (code.toNat / 4) = 1 ∧
        code.toNat % 4 = operand.mode) ∧
      ∀ (i j address address' length : Nat) (code code' : UInt8) (operand operand' : Operand)
        (label label' payload : String),
        assembly.listing[i]? = some (.body address (.instruction code operand)) →
        assembly.listing[j]? = some (.body address' (.instruction code' operand')) →
        assembly.records[i]? = some (.text label length payload) →
        assembly.records[j]? = some (.text label' length payload) →
        code = code' ∧ operand.foldCase = operand'.foldCase := by
  constructor
  · intro i address code operand hi
    obtain ⟨length, payload, hrecord, htext⟩ := exists_text_of_instruction h hi
    obtain ⟨digits, rfl, -⟩ :=
      Operand.exists_digits_of_text? (symbols_rise_of_assemble hknown h) htext
    obtain ⟨p, -, hreads, -, -, -, hlisting, -, -⟩ := exists_program_of_assemble h
    rw [hlisting] at hi
    obtain ⟨tokens, -, hemits⟩ := hreads.emits hi
    obtain ⟨hmode, d, hd, hopcode⟩ := hemits.exists_opcode
    have hle : d.opcode.toNat ≤ 63 := ht.opcode_le d hd
    rw [Nat.mod_eq_of_lt (by omega)] at hopcode
    refine ⟨length, digits, hrecord, ?_, hmode⟩
    rw [hopcode]
    exact ht.wellFormed.count_opcode hd
  · intro i j address address' length code code' operand operand' label label' payload hi hj hri hrj
    have hfirst := decode?_of_assemble hknown h hi hri
    have hsecond := decode?_of_assemble hknown h hj hrj
    exact Prod.mk.inj (Option.some.inj (hfirst.symm.trans hsecond))

/-- What is assembled from two jumps to one label, written in either case. -/
def jumps : Assembly where
  listing := [.start "P" 16, .body 16 (.instruction 5 (.symbol "A")),
    .body 20 (.instruction 5 (.symbol "a"))]
  symbols := [⟨"A", 16⟩]
  records := [.header "P" 16 8, .text "000010" 4 "05000010", .text "000014" 4 "05000010",
    .finish 16]

/-- The first jump has a code byte of mode one and an opcode that occurs once in the standard table.
The second one has the same length and payload, and so the same label but for its case. -/
theorem instruction_decodable_sample :
    ∃ after, (start {}).assemble "P START 16\nA JMP A\nJMP a\nEND" = (.ok jumps, after) ∧
      (∃ (length : Nat) (digits : String),
        jumps.records[1]? = some (.text (hex 6 16) length (hex 2 5 ++ digits)) ∧
        (OpTable.standard.definitions.map fun d ↦ d.opcode.toNat).count 1 = 1 ∧
        5 % 4 = (Operand.symbol "A").mode) ∧
      (Operand.symbol "A").foldCase = (Operand.symbol "a").foldCase := by
  have hrun : ((start {}).assemble "P START 16\nA JMP A\nJMP a\nEND").1 = .ok jumps := by
    decide +kernel
  obtain ⟨after, h⟩ := exists_after hrun
  obtain ⟨hfirst, hboth⟩ := instruction_decodable .standard rfl h
  exact ⟨after, h, hfirst 1 16 5 (.symbol "A") rfl,
    (hboth 1 2 16 20 4 5 5 _ _ _ _ "05000010" rfl rfl rfl rfl).2⟩

end Session

end SicXe
