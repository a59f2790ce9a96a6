import SicXe.Proofs.Assembling
import SicXe.Proofs.Tables

/-!
# Resolution of labels

A label operand stands for the address of the line that carries the label. Token lines, listing
lines and records of an assembled source are matched by their positions: each token line before
the end directive has one listing line, and each listing line has one record. Labels are new when
they are defined, so exactly one line after the start directive can carry the label that is looked
up, and its address is in the payload.
-/

namespace SicXe

open Listing (Line Content)
open Text (hex)

/-! ### Positions in the source -/

namespace Grammar

variable (g : Grammar)

/-- What the mnemonic of a token line stands for. -/
def lineOperation? (tokens : List String) : Option Operation :=
  (g.statement? tokens).bind fun s ↦ g.operation? s.mnemonic

/-- The label in front of the mnemonic of a token line, in upper case. -/
def lineLabel? (tokens : List String) : Option String :=
  (g.statement? tokens).bind Statement.label

/-- The first end directive of a source stands at a position. -/
def EndsAt (source : List (List String)) (k : Nat) : Prop :=
  source[k]?.bind g.lineOperation? = some (.directive .finish) ∧
    ∀ i < k, source[i]?.bind g.lineOperation? ≠ some (.directive .finish)

/-- The label slot of the token line at a position holds a name, ignoring the case of letters. -/
def LabelAt (source : List (List String)) (name : String) (j : Nat) : Prop :=
  ∃ label, source[j]?.bind g.lineLabel? = some label ∧ Text.sameName label name = true

variable {g} {limit : Nat} {tokens : List String} {rest source : List (List String)}

private theorem lineOperation?_start {name : String} {address : Nat}
    (h : g.IsStart limit tokens name address) :
    g.lineOperation? tokens = some (.directive .start) := by
  obtain ⟨s, operand, hs, ho, -⟩ := h
  rw [lineOperation?, hs]
  exact ho

private theorem lineOperation?_item {item : Item} (h : g.IsItem tokens item) :
    g.lineOperation? tokens ≠ some (.directive .finish) := by
  obtain ⟨s, hs, -, hc⟩ := h
  rw [lineOperation?, hs]
  intro ho
  have ho : g.operation? s.mnemonic = some (.directive .finish) := ho
  simp only [Placement.content, ho] at hc
  cases hc

private theorem lineOperation?_end {label : Option String} {entry : Option Nat}
    (h : g.IsEnd limit tokens label entry) :
    g.lineOperation? tokens = some (.directive .finish) := by
  obtain ⟨s, hs, ho, -⟩ := h
  rw [lineOperation?, hs]
  exact ho

/-- An end directive that is the first one after a line is the first one with the line, if the line is
none. -/
theorem EndsAt.cons {k : Nat} (h : g.lineOperation? tokens ≠ some (.directive .finish))
    (hr : g.EndsAt rest k) : g.EndsAt (tokens :: rest) (k + 1) := by
  refine ⟨by simpa using hr.1, ?_⟩
  intro i hi
  cases i with
  | zero => simpa using h
  | succ i => simpa using hr.2 i (by omega)

section

variable {items : List Item} {last : Option String} {entry : Option Nat}

/-- The end directive of a body stands right after its items. -/
theorem Body.endsAt (h : g.Body limit source items last entry) : g.EndsAt source items.length := by
  induction h with
  | close hend => exact ⟨by simpa using lineOperation?_end hend, by simp⟩
  | item hitem _ ih => exact ih.cons (lineOperation?_item hitem)

/-- The label slots of a body hold the labels of its items and of its end directive. -/
theorem Body.lineLabel?_eq (h : g.Body limit source items last entry) {address m : Nat}
    {slot : Option String × Nat} (hm : (Program.slotsFrom address last items)[m]? = some slot) :
    source[m]?.bind g.lineLabel? = slot.1 := by
  induction h generalizing address m with
  | close hend =>
    obtain ⟨s, hs, -, rfl, -⟩ := hend
    cases m with
    | zero =>
      obtain rfl := Option.some.inj hm
      simp [lineLabel?, hs]
    | succ m => simp [Program.slotsFrom] at hm
  | item hitem _ ih =>
    obtain ⟨s, hs, hl, -⟩ := hitem
    cases m with
    | zero =>
      obtain rfl := Option.some.inj hm
      simp [lineLabel?, hs, hl]
    | succ m => exact ih hm

end

end Grammar

/-! ### Addresses of labels -/

namespace Program

variable {address m : Nat} {items : List Item}

/-- There is a line for each item. -/
@[simp] theorem length_linesFrom (address : Nat) (items : List Item) :
    (linesFrom address items).length = items.length := by
  induction items generalizing address with
  | nil => rfl
  | cons item items ih => rw [linesFrom, List.length_cons, ih, List.length_cons]

/-- The listing has a line for the start directive and for each item. -/
theorem length_listing (p : Program) : p.listing.length = p.items.length + 1 := by
  rw [listing, List.length_cons, length_linesFrom]

/-- There is a label slot for each item and for the end directive. -/
@[simp] theorem length_slotsFrom (address : Nat) (last : Option String) (items : List Item) :
    (slotsFrom address last items).length = items.length + 1 := by
  induction items generalizing address with
  | nil => rfl
  | cons item items ih => rw [slotsFrom, List.length_cons, ih, List.length_cons]

/-- A label slot has the address of its line, or the address after the last item. -/
theorem address_of_slotsFrom {last : Option String} {slot : Option String × Nat}
    (h : (slotsFrom address last items)[m]? = some slot) :
    (m < items.length ∧ (linesFrom address items)[m]?.map Line.address = some slot.2) ∨
      (m = items.length ∧ slot.2 = address + extent items) := by
  induction items generalizing address m with
  | nil =>
    cases m with
    | zero =>
      obtain rfl := Option.some.inj h
      exact Or.inr ⟨rfl, by simp [extent]⟩
    | succ m => simp [slotsFrom] at h
  | cons item items ih =>
    cases m with
    | zero =>
      obtain rfl := Option.some.inj h
      exact Or.inl ⟨by simp, rfl⟩
    | succ m =>
      rcases ih h with ⟨hm, ha⟩ | ⟨rfl, ha⟩
      · exact Or.inl ⟨by simpa using hm, ha⟩
      · exact Or.inr ⟨rfl, by simpa [extent, Nat.add_assoc] using ha⟩

end Program

namespace SymbolTable

private theorem contains_insert (table : SymbolTable) (name other : String) (address : Nat) :
    (table.insert name address).contains other =
      (table.contains other || Text.sameName name other) := by
  rw [contains, contains, find?_eq, find?_eq, entries_insert, List.find?_append, Option.isSome_or]
  cases hs : Text.sameName name other <;> simp [hs]

/-- Entries are new one after another when they are new to the table and have different names. -/
theorem fresh_iff {table : SymbolTable} {entries : List Symbol} :
    table.Fresh entries ↔ (∀ entry ∈ entries, table.contains entry.name = false) ∧
      entries.Pairwise fun a b ↦ Text.sameName a.name b.name = false := by
  induction entries generalizing table with
  | nil => simp [Fresh]
  | cons entry entries ih =>
    rw [Fresh, ih, List.forall_mem_cons, List.pairwise_cons]
    simp only [contains_insert, Bool.or_eq_false_iff, forall_and]
    tauto

end SymbolTable

namespace Program

private theorem eq_of_sameName {slots : List (Option String × Nat)}
    (h : (symbolsOf slots).Pairwise fun a b ↦ Text.sameName a.name b.name = false)
    {name first second : String} {a b m n : Nat} (hm : slots[m]? = some (some first, a))
    (hn : slots[n]? = some (some second, b)) (hf : Text.sameName first name = true)
    (hs : Text.sameName second name = true) : m = n := by
  have separate : ∀ {i j : Nat} {x y : String} {c d : Nat}, slots[i]? = some (some x, c) →
      slots[j]? = some (some y, d) → i < j → Text.sameName x y = false := by
    intro i j x y c d hi hj hlt
    obtain ⟨_, hi⟩ := List.getElem?_eq_some_iff.mp hi
    obtain ⟨_, hj⟩ := List.getElem?_eq_some_iff.mp hj
    have hpair := List.pairwise_iff_getElem.mp (List.pairwise_filterMap.mp h) i j ‹_› ‹_› hlt
    exact hpair ⟨x, c⟩ (by rw [hi]; rfl) ⟨y, d⟩ (by rw [hj]; rfl)
  rw [Text.sameName_iff] at hf hs
  rcases Nat.lt_trichotomy m n with hlt | heq | hlt
  · have hne := separate hm hn hlt
    rw [Text.sameName, hf, hs] at hne
    simp at hne
  · exact heq
  · have hne := separate hn hm hlt
    rw [Text.sameName, hf, hs] at hne
    simp at hne

/-- Every symbol of a program stands in one of its label slots. -/
theorem exists_slot_of_mem_symbols {p : Program} {entry : Symbol} (h : entry ∈ p.symbols) :
    ∃ n : Nat, p.slots[n]? = some (some entry.name, entry.address) := by
  obtain ⟨⟨label, address⟩, hm, he⟩ := List.mem_filterMap.mp h
  obtain ⟨name, rfl, rfl⟩ := Option.map_eq_some_iff.mp he
  exact List.mem_iff_getElem?.mp hm

end Program

namespace Grammar

variable {g : Grammar} {limit : Nat} {source : List (List String)} {p : Program}

/-- The label slots of a program stand in the token lines after the first one. -/
theorem Reads.labelAt_iff (h : g.Reads limit source p) {name : String} {n : Nat}
    {slot : Option String × Nat} (hn : p.slots[n]? = some slot) :
    g.LabelAt source name (n + 1) ↔
      ∃ label, slot.1 = some label ∧ Text.sameName label name = true := by
  obtain ⟨first, rest, rfl, -, hbody⟩ := h
  rw [LabelAt, List.getElem?_cons_succ, hbody.lineLabel?_eq hn]

/-- A label that is looked up in the symbols of a program stands in exactly one label slot after
the start directive, and has the address of the line there. -/
theorem Reads.exists_labelAt (h : g.Reads limit source p)
    (hfresh : SymbolTable.empty.Fresh p.symbols) {name : String} {entry : Symbol}
    (hfind : (SymbolTable.mk p.symbols).find? name = some entry) :
    ∃ j, (1 ≤ j ∧ j ≤ p.listing.length ∧ g.LabelAt source name j) ∧
      (∀ i, 1 ≤ i → i ≤ p.listing.length → g.LabelAt source name i → i = j) ∧
      ((j < p.listing.length ∧ p.listing[j]?.map Line.address = some entry.address) ∨
        (j = p.listing.length ∧ entry.address = p.finish)) := by
  rw [SymbolTable.find?_eq] at hfind
  have hsame := List.find?_some hfind
  obtain ⟨n, hn⟩ := Program.exists_slot_of_mem_symbols (List.mem_of_find?_eq_some hfind)
  have hlen := p.length_listing
  have hslots : p.slots.length = p.items.length + 1 := Program.length_slotsFrom _ _ _
  have hlt := (List.getElem?_eq_some_iff.mp hn).1
  refine ⟨n + 1, ⟨by omega, by omega, (h.labelAt_iff hn).mpr ⟨_, rfl, hsame⟩⟩, ?_, ?_⟩
  · intro i hpos hle hi
    obtain ⟨m, rfl⟩ := Nat.exists_eq_add_of_le' hpos
    have hm : p.slots[m]? = some (p.slots.get ⟨m, by omega⟩) := List.getElem?_eq_getElem _
    obtain ⟨label, hlabel, hother⟩ := (h.labelAt_iff hm).mp hi
    rw [← Prod.eta (p.slots.get _), hlabel] at hm
    rw [Program.eq_of_sameName (SymbolTable.fresh_iff.mp hfresh).2 hm hn hother hsame]
  · rcases Program.address_of_slotsFrom hn with ⟨hm, ha⟩ | ⟨hm, ha⟩
    · exact Or.inl ⟨by omega, ha⟩
    · exact Or.inr ⟨by omega, ha⟩

end Grammar

/-! ### Label operands -/

namespace Grammar

/-- The listing line that a token line stands for, apart from the address of a content. -/
def Emits (g : Grammar) (limit : Nat) (tokens : List String) : Line → Prop
  | .start name address => g.IsStart limit tokens name address
  | .body _ content =>
    ∃ s, g.statement? tokens = some s ∧ Placement.content g s = .ok content

variable {g : Grammar} {limit : Nat} {source : List (List String)} {p : Program}

/-- Each line of a program's listing stands for the token line at its position. -/
theorem Reads.emits (h : g.Reads limit source p) {i : Nat} {line : Line}
    (hi : p.listing[i]? = some line) :
    ∃ tokens, source[i]? = some tokens ∧ g.Emits limit tokens line := by
  obtain ⟨first, rest, rfl, hstart, hbody⟩ := h
  cases i with
  | zero =>
    obtain rfl := Option.some.inj hi
    exact ⟨first, rfl, hstart⟩
  | succ m =>
    obtain ⟨a, item, hitem, rfl⟩ := Program.exists_item_of_linesFrom hi
    obtain ⟨tokens, ht, s, hs, -, hc⟩ := hbody.exists_isItem hitem
    exact ⟨tokens, ht, s, hs, hc⟩

/-- The first end directive of a program stands right after the lines of its listing. -/
theorem Reads.endsAt (h : g.Reads limit source p) : g.EndsAt source p.listing.length := by
  obtain ⟨first, rest, rfl, hstart, hbody⟩ := h
  rw [Program.length_listing]
  apply hbody.endsAt.cons
  rw [lineOperation?_start hstart]
  simp

/-- The code byte of a line with a label operand is four times the opcode of the instruction that
it stands for, and one. -/
theorem Emits.exists_definition {tokens : List String} {address : Nat} {code : UInt8}
    {name : String} (ht : ∀ d ∈ g.table.definitions, d.opcode.toNat ≤ maxOpcode)
    (h : g.Emits limit tokens (.body address (.instruction code (.symbol name)))) :
    ∃ d, g.lineOperation? tokens = some (.instruction d) ∧
      code.toNat = 4 * d.opcode.toNat + 1 := by
  obtain ⟨s, hs, hc⟩ := h
  obtain ⟨d, ho, rfl⟩ := Placement.content_eq_symbol hc
  have hd : d.opcode.toNat ≤ 63 := by
    apply ht
    unfold operation? at ho
    split at ho
    · cases ho
    · obtain ⟨d', hf, he⟩ := Option.map_eq_some_iff.mp ho
      obtain rfl := Operation.instruction.inj he
      exact List.mem_of_find?_eq_some hf
  refine ⟨d, by rw [lineOperation?, hs]; exact ho, ?_⟩
  rw [d.toNat_codeByte_or_one, d.toNat_codeByte]
  omega

end Grammar

namespace Session

variable {session after : Session} {source : String} {assembly : Assembly}

private theorem exists_record {lines : List Line} {records : List Record} {symbols : SymbolTable}
    {m : Nat} {line : Line} (h : lines.map (Line.record? symbols) = records.map some)
    (hm : lines[m]? = some line) :
    ∃ record, records[m]? = some record ∧ line.record? symbols = some record := by
  have hat := congrArg (fun l ↦ l[m]?) h
  simp only [List.getElem?_map, hm, Option.map_some] at hat
  obtain ⟨record, hr, he⟩ := Option.map_eq_some_iff.mp hat.symm
  exact ⟨record, hr, he.symm⟩

/-- In an object program the records of the lines follow the header. -/
theorem exists_record_after_header {lines : List Line} {records : List Record}
    {symbols : SymbolTable} {m : Nat} {line : Line}
    (h : lines.map (Line.record? symbols) = records.map some) (hm : lines[m]? = some line)
    (header last : Record) :
    ∃ record, (header :: records ++ [last])[m + 1]? = some record ∧
      line.record? symbols = some record := by
  obtain ⟨record, hrecord, htyped⟩ := exists_record h hm
  refine ⟨record, ?_, htyped⟩
  rw [List.cons_append, List.getElem?_cons_succ,
    List.getElem?_append_left (List.getElem?_eq_some_iff.mp hrecord).1, hrecord]

/-- In an assembled source, whose lines before the end directive have a listing line each, a label
operand stands for the only line after the start directive that carries the label: the payload
holds the opcode, the mode bit and the address of that line, or the final location counter when it
is the line of the end directive. -/
theorem symbol_operand_resolves (ht : session.table.Accepted)
    (hclear : session.options.clearSymbols = true)
    (h : session.assemble source = (.ok assembly, after)) :
    let g := Placement.grammar session.options session.table
    ∃ k, g.EndsAt (Token.ofText source) k ∧ assembly.listing.length = k ∧
      (∀ (i : Nat) (line : Line), assembly.listing[i]? = some line →
        ∃ tokens, (Token.ofText source)[i]? = some tokens ∧
          g.Emits session.options.limit tokens line) ∧
      ∀ (i address : Nat) (code : UInt8) (name : String),
        assembly.listing[i]? = some (.body address (.instruction code (.symbol name))) →
        ∃ (d : Definition) (j target : Nat),
          (Token.ofText source)[i]?.bind g.lineOperation? = some (.instruction d) ∧
          (1 ≤ j ∧ j ≤ k ∧ g.LabelAt (Token.ofText source) name j) ∧
          (∀ j', 1 ≤ j' → j' ≤ k → g.LabelAt (Token.ofText source) name j' → j' = j) ∧
          ((j < k ∧ assembly.listing[j]?.map Line.address = some target) ∨
            (j = k ∧ target = after.layout.locationCounter)) ∧
          assembly.records[i]? =
            some (.text (hex 6 address) 4 (hex 2 (4 * d.opcode.toNat + 1) ++ hex 6 target)) := by
  intro g
  obtain ⟨p, records, hreads, hfresh, hsymbols, hlayout, hlisting, hmap, hrecords⟩ :=
    exists_program_of_assemble h
  have hknown : session.knownSymbols = .empty := by
    rw [knownSymbols, hclear]
    rfl
  rw [hknown] at hfresh hsymbols
  rw [hlisting, hlayout, hrecords]
  refine ⟨p.listing.length, hreads.endsAt, rfl, fun i line hi ↦ hreads.emits hi, ?_⟩
  intro i address code name hi
  obtain ⟨tokens, hline, hemits⟩ := hreads.emits hi
  obtain ⟨d, hd, hcode⟩ := hemits.exists_definition ht.opcode_le
  -- The opening line has no operand, so the line and its record are those of an item.
  cases i with
  | zero => cases Option.some.inj hi
  | succ m =>
    obtain ⟨record, hrecord, htyped⟩ := exists_record hmap hi
    obtain ⟨payload, hpayload, rfl⟩ := Option.map_eq_some_iff.mp htyped
    obtain ⟨entry, hfind, rfl⟩ := Option.map_eq_some_iff.mp hpayload
    rw [hsymbols] at hfind
    obtain ⟨j, hj, hunique, hat⟩ := hreads.exists_labelAt hfresh hfind
    refine ⟨d, j, entry.address, by rw [hline]; exact hd, hj, hunique, hat, ?_⟩
    rw [List.cons_append, List.getElem?_cons_succ,
      List.getElem?_append_left (List.getElem?_eq_some_iff.mp hrecord).1, hrecord, hcode]

/-- The jump of the sample text, its third line, goes to a line after the first one. -/
theorem symbol_operand_resolves_sample :
    ∃ assembly after, (start {}).assemble Program.sampleText = (.ok assembly, after) ∧
      ∃ (d : Definition) (j target : Nat), 1 ≤ j ∧
        (Placement.grammar {} .standard).LabelAt (Token.ofText Program.sampleText) "Last" j ∧
        assembly.records[2]? =
          some (.text (hex 6 262) 4 (hex 2 (4 * d.opcode.toNat + 1) ++ hex 6 target)) := by
  obtain ⟨assembly, after, h, hlisting⟩ := sample_assembles
  obtain ⟨k, -, -, -, hall⟩ := symbol_operand_resolves .standard rfl h
  have hjump : assembly.listing[2]? = some (.body 262 (.instruction 5 (.symbol "Last"))) := by
    rw [hlisting]
    cbv
  obtain ⟨d, j, target, -, ⟨hpos, -, hlabel⟩, -, -, hrecord⟩ := hall 2 262 5 "Last" hjump
  exact ⟨assembly, after, h, d, j, target, hpos, hlabel, hrecord⟩

end Session

end SicXe
