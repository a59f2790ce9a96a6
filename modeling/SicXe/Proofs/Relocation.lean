import SicXe.Proofs.History

/-!
# Moving a program

No mnemonic, operand or size depends on where a program starts. A source whose start address is
replaced is therefore placed as before, with every address moved by the same distance, as long as
the program still ends at or below the highest address; only an entry address that the end directive
gives as a number stays. In the object program the address labels move, and the addresses that stand
for label operands, and nothing else.
-/

namespace SicXe

open Listing (Content Line Operand)
open Program (extent linesFrom slotsFrom symbolsOf)
open Text (hex)

/-! ### Moved addresses -/

/-- Where an address at or above the old start of a program lies when the program gets a new one. -/
def moved (old new address : Nat) : Nat := address - old + new

/-- A symbol of a program that gets a new start. -/
def Symbol.move (old new : Nat) (symbol : Symbol) : Symbol :=
  { symbol with address := moved old new symbol.address }

/-- A line of a program that gets a new start; what it holds is kept. -/
def Listing.Line.move (old new : Nat) : Line → Line
  | start label address => start label (moved old new address)
  | body address content => body (moved old new address) content

/-- The start itself moves to the new start. -/
@[simp] theorem moved_self (old new : Nat) : moved old new old = new := by
  simp [moved]

/-- Distances from an address at or above the start are kept. -/
theorem moved_add {old address : Nat} (h : old ≤ address) (new n : Nat) :
    moved old new (address + n) = moved old new address + n := by
  unfold moved
  omega

/-- Looking a label up among moved symbols gives the moved symbol. -/
theorem SymbolTable.find?_map_move (entries : List Symbol) (old new : Nat) (name : String) :
    (SymbolTable.mk (entries.map (Symbol.move old new))).find? name =
      ((SymbolTable.mk entries).find? name).map (Symbol.move old new) := by
  rw [SymbolTable.find?_eq, SymbolTable.find?_eq, List.find?_map]
  rfl

/-! ### Moved programs -/

namespace Program

/-- A program with another start. -/
def moveTo (p : Program) (new : Nat) : Program := { p with start := new }

variable {old address : Nat}

/-- Lines that stand one after another move together. -/
theorem linesFrom_moved (h : old ≤ address) (new : Nat) (items : List Item) :
    linesFrom (moved old new address) items =
      (linesFrom address items).map (Line.move old new) := by
  induction items generalizing address with
  | nil => rfl
  | cons item items ih =>
    have hnext : old ≤ address + item.content.size := by omega
    rw [linesFrom, linesFrom, List.map_cons, ← moved_add h, ih hnext]
    rfl

/-- Symbols of items that stand one after another move together. -/
theorem symbolsOf_moved (h : old ≤ address) (new : Nat) (last : Option String)
    (items : List Item) :
    symbolsOf (slotsFrom (moved old new address) last items) =
      (symbolsOf (slotsFrom address last items)).map (Symbol.move old new) := by
  have symbol_moved : ∀ (label : Option String) (a : Nat),
      (symbol? (label, moved old new a)).toList =
        (symbol? (label, a)).toList.map (Symbol.move old new) := by
    intro label a
    cases label <;> rfl
  induction items generalizing address with
  | nil => rw [slotsFrom, slotsFrom, symbolsOf_singleton, symbolsOf_singleton, symbol_moved]
  | cons item items ih =>
    have hnext : old ≤ address + item.content.size := by omega
    rw [slotsFrom, slotsFrom, symbolsOf_cons, symbolsOf_cons, List.map_append, symbol_moved,
      ← moved_add h, ih hnext]

variable (p : Program) (new : Nat)

/-- The lines of a moved program after its opening line. -/
theorem linesFrom_moveTo :
    linesFrom new p.items = (linesFrom p.start p.items).map (Line.move p.start new) := by
  have hlines := linesFrom_moved (Nat.le_refl p.start) new p.items
  rwa [moved_self] at hlines

/-- The listing of a moved program. -/
theorem listing_moveTo : (p.moveTo new).listing = p.listing.map (Line.move p.start new) := by
  rw [listing, listing, List.map_cons, ← linesFrom_moveTo, Line.move, moved_self]
  rfl

/-- The symbols of a moved program. -/
theorem symbols_moveTo : (p.moveTo new).symbols = p.symbols.map (Symbol.move p.start new) := by
  have hsymbols := symbolsOf_moved (Nat.le_refl p.start) new p.endLabel p.items
  rw [moved_self] at hsymbols
  exact hsymbols

/-- The address after the last item of a moved program. -/
theorem finish_moveTo : (p.moveTo new).finish = moved p.start new p.finish := by
  rw [finish, finish, moved_add (Nat.le_refl p.start), moved_self]
  rfl

/-- The layout of a moved program. -/
theorem layout_moveTo : (p.moveTo new).layout = { p.layout with
    locationCounter := moved p.start new p.finish
    startAddress := new
    entryAddress := p.entry.getD new } := by
  rw [layout, finish_moveTo]
  rfl

/-- A moved program has the same length. -/
theorem programLength_moveTo : (p.moveTo new).layout.programLength = p.layout.programLength := by
  change new + extent p.items - new = p.start + extent p.items - p.start
  rw [Nat.add_sub_cancel_left, Nat.add_sub_cancel_left]

/-- New labels are new wherever the program starts. -/
theorem fresh_moveTo {table : SymbolTable} (h : table.Fresh p.symbols) :
    table.Fresh (p.moveTo new).symbols := by
  have hnames : (p.moveTo new).symbols.map Symbol.name = p.symbols.map Symbol.name := by
    rw [symbols_moveTo, List.map_map]
    rfl
  rw [SymbolTable.fresh_iff_names] at h ⊢
  rwa [hnames]

end Program

/-! ### Moved sources -/

namespace Grammar

variable {g : Grammar} {limit : Nat}

/-- A start directive with a label takes another address in the place of its own. -/
theorem IsStart.replace {label word operand operand' name : String} {old new : Nat}
    (h : g.IsStart limit [label, word, operand] name old)
    (hnew : Placement.startAddress limit operand' = .ok new) :
    Placement.startAddress limit operand = .ok old ∧
      g.IsStart limit [label, word, operand'] name new := by
  obtain ⟨s, found, hs, ho, hl, hop, ha⟩ := h
  simp only [statement?] at hs
  split at hs
  · next hc =>
    obtain rfl := Option.some.inj hs
    obtain rfl := Operands.one.inj hop
    refine ⟨ha, .ofWritten (some label) word (.one operand'), operand', ?_, ho, hl, rfl, hnew⟩
    simp only [statement?, if_pos hc]
  · split at hs
    · obtain rfl := Option.some.inj hs
      cases hop
    · cases hs

/-- A source with another start address reads as the moved program. -/
theorem Reads.moveTo {label word operand operand' : String} {body : List (List String)}
    {p : Program} {new : Nat} (h : g.Reads limit ([label, word, operand] :: body) p)
    (hnew : Placement.startAddress limit operand' = .ok new) :
    g.Reads limit ([label, word, operand'] :: body) (p.moveTo new) := by
  obtain ⟨first, rest, hsource, hstart, hbody⟩ := h
  obtain ⟨rfl, rfl⟩ := List.cons.inj hsource
  exact ⟨_, _, rfl, (hstart.replace hnew).2, hbody⟩

/-- The start address of a program is the one that its first line gives. -/
theorem Reads.start_eq {label word operand : String} {body : List (List String)} {p : Program}
    {old : Nat} (h : g.Reads limit ([label, word, operand] :: body) p)
    (hold : Placement.startAddress limit operand = .ok old) : p.start = old := by
  obtain ⟨first, rest, hsource, hstart, -⟩ := h
  obtain ⟨rfl, -⟩ := List.cons.inj hsource
  have hfound := (hstart.replace hold).1
  rw [hold] at hfound
  exact (Except.ok.inj hfound).symm

/-- The statement that ends a program gives its entry address, unless it has no operand. -/
theorem Reads.exists_last {first : List String} {body : List (List String)} {p : Program}
    (h : g.Reads limit (first :: body) p) :
    ∃ k last, g.EndsAt body k ∧ body[k]?.bind g.statement? = some last ∧
      (last.operands = .none ↔ p.entry = none) := by
  obtain ⟨_, _, hsource, -, hbody⟩ := h
  obtain ⟨-, rfl⟩ := List.cons.inj hsource
  obtain ⟨-, tokens, ht, s, hs, -, -, hentry⟩ := body_iff.mp hbody
  have ht : body[p.items.length]? = some tokens := ht
  refine ⟨p.items.length, s, hbody.endsAt, by rw [ht]; exact hs, ?_⟩
  cases ho : s.operands with
  | none =>
    rw [ho] at hentry
    exact iff_of_true rfl hentry
  | one operand =>
    rw [ho] at hentry
    obtain ⟨address, -, he⟩ := hentry
    simp [he]
  | two a b =>
    rw [ho] at hentry
    cases hentry

end Grammar

/-! ### Moved placements -/

namespace Placement

/-- A placed program and its symbols, and what they become when the program gets a new start. -/
structure IsMoved (old new : Nat) (last : Statement) (placed placed' : Placed)
    (symbols symbols' : SymbolTable) : Prop where
  start_eq : placed.layout.startAddress = old
  /-- Every address lies at or above the old start, so the distance of a move is kept by all. -/
  old_le_line : ∀ line ∈ placed.lines, old ≤ line.address
  old_le_symbol : ∀ entry ∈ symbols.entries, old ≤ entry.address
  old_le_counter : old ≤ placed.layout.locationCounter
  old_le_entry : last.operands = .none → old ≤ placed.layout.entryAddress
  /-- The lines hold what they held. -/
  lines_eq : placed'.lines = placed.lines.map (Line.move old new)
  symbols_eq : symbols'.entries = symbols.entries.map (Symbol.move old new)
  /-- The entry address moves when the last statement, the end directive, has no operand. -/
  layout_eq : placed'.layout = { placed.layout with
    locationCounter := moved old new placed.layout.locationCounter
    startAddress := moved old new placed.layout.startAddress
    entryAddress := if last.operands = .none then moved old new placed.layout.entryAddress
      else placed.layout.entryAddress }
  programLength_eq : placed'.layout.programLength = placed.layout.programLength

end Placement

namespace Program

variable {g : Grammar} {limit : Nat} {source : List (List String)} {p : Program}

/-- The lines of a program stand at or above its start. -/
theorem start_le_of_mem_listing (h : g.Reads limit source p) {line : Line}
    (hm : line ∈ p.listing) : p.start ≤ line.address := by
  rcases List.mem_cons.mp hm with rfl | hm
  · exact Nat.le_refl _
  · obtain ⟨m, hm⟩ := List.mem_iff_getElem?.mp hm
    have htiles := tiles_linesFrom (wellFormed_of_mem_items h) p.start
    obtain ⟨-, -, -, -, -, hle, -⟩ := htiles.ends_at_next hm
    exact hle

/-- A program that gets a new start is moved as a whole. -/
theorem isMoved_moveTo (h : g.Reads limit source p) {last : Statement}
    (hlast : last.operands = .none ↔ p.entry = none) (new : Nat) :
    Placement.IsMoved p.start new last ⟨p.listing, p.layout⟩
      ⟨(p.moveTo new).listing, (p.moveTo new).layout⟩ ⟨p.symbols⟩ ⟨(p.moveTo new).symbols⟩ where
  start_eq := rfl
  old_le_line _ hm := start_le_of_mem_listing h hm
  old_le_symbol _ hm := (address_of_mem_symbols hm).1
  old_le_counter := Nat.le_add_right _ _
  old_le_entry ho := by
    change p.start ≤ p.entry.getD p.start
    rw [hlast.mp ho]
    exact Nat.le_refl _
  lines_eq := p.listing_moveTo new
  symbols_eq := p.symbols_moveTo new
  layout_eq := by
    rw [p.layout_moveTo new]
    cases he : p.entry with
    | none => simp [layout, hlast.mpr he, he]
    | some address =>
      have hsome : last.operands ≠ .none := by simp [hlast, he]
      simp [layout, hsome, he]
  programLength_eq := p.programLength_moveTo new

end Program

/-! ### Moved records -/

/-- The record of a line, and what it becomes when the program gets a new start: the address of the
line moves, and so does the address that stands for a label operand. -/
inductive Record.Moves (old new : Nat) : Line → Record → Record → Prop
  | header {label name : String} {address length : Nat} :
      Moves old new (.start label address) (.header name address length)
        (.header name (moved old new address) length)
  | symbol {address target : Nat} {code : UInt8} {name : String} :
      old ≤ target →
      Moves old new (.body address (.instruction code (.symbol name)))
        (.text (hex 6 address) 4 (hex 2 code.toNat ++ hex 6 target))
        (.text (hex 6 (moved old new address)) 4
          (hex 2 code.toNat ++ hex 6 (moved old new target)))
  | text {address length : Nat} {content : Content} {payload : String} :
      (∀ code name, content ≠ .instruction code (.symbol name)) →
      Moves old new (.body address content) (.text (hex 6 address) length payload)
        (.text (hex 6 (moved old new address)) length payload)
  | reserve {address length : Nat} {content : Content} :
      Moves old new (.body address content) (.reserve (hex 6 address) length)
        (.reserve (hex 6 (moved old new address)) length)

namespace Listing

variable {old new address : Nat} {entries : List Symbol} {record record' : Record}

/-- The typed record of a moved line is the moved record. -/
theorem Content.moves_record? {c : Content} (hle : ∀ entry ∈ entries, old ≤ entry.address)
    (h : c.record? ⟨entries⟩ (hex 6 address) = some record)
    (h' : c.record? ⟨entries.map (Symbol.move old new)⟩ (hex 6 (moved old new address)) =
      some record') :
    Record.Moves old new (.body address c) record record' := by
  cases c with
  | word value =>
    obtain rfl := Option.some.inj h
    obtain rfl := Option.some.inj h'
    exact .text (by simp)
  | byte value =>
    obtain rfl := Option.some.inj h
    obtain rfl := Option.some.inj h'
    exact .text (by simp)
  | literal token =>
    obtain ⟨text, ht, rfl⟩ := Option.map_eq_some_iff.mp h
    obtain ⟨text', ht', rfl⟩ := Option.map_eq_some_iff.mp h'
    rw [ht] at ht'
    obtain rfl := Option.some.inj ht'
    exact .text (by simp)
  | reserveWords count =>
    obtain rfl := Option.some.inj h
    obtain rfl := Option.some.inj h'
    exact .reserve
  | reserveBytes count =>
    obtain rfl := Option.some.inj h
    obtain rfl := Option.some.inj h'
    exact .reserve
  | instruction code operand =>
    obtain ⟨text, ht, rfl⟩ := Option.map_eq_some_iff.mp h
    obtain ⟨text', ht', rfl⟩ := Option.map_eq_some_iff.mp h'
    cases operand with
    | symbol name =>
      obtain ⟨entry, hfind, rfl⟩ := Option.map_eq_some_iff.mp ht
      rw [Operand.text?, SymbolTable.find?_map_move, hfind] at ht'
      obtain rfl := Option.some.inj ht'
      rw [SymbolTable.find?_eq] at hfind
      exact .symbol (hle entry (List.mem_of_find?_eq_some hfind))
    | _ =>
      -- Every other operand has its text whatever symbols there are.
      have hsame := ht.symm.trans ht'
      obtain rfl := Option.some.inj hsame
      exact .text (by simp)

end Listing

namespace Encoding

/-- The object program of a program's listing has a header, the typed records of its lines and an
end. -/
theorem exists_records_of_run {p : Program} {symbols : SymbolTable} {records : List Record}
    (hfits : ∀ item ∈ p.items, item.content.Fits)
    (h : run symbols p.layout (p.listing.map Line.tokens) = .ok records) :
    ∃ body : List Record,
      (linesFrom p.start p.items).map (Line.record? symbols) = body.map some ∧
      records = .header (Text.uppercase p.name) p.start p.layout.programLength :: body ++
        [.finish p.layout.entryAddress] := by
  have outcome := run_outcome symbols p.layout hfits
  rw [h] at outcome
  cases outcome with
  | @records label address lines body hopen _ hmap _ =>
    obtain ⟨hs, rfl⟩ := List.cons.inj hopen
    obtain ⟨rfl, rfl⟩ := Line.start.inj hs
    exact ⟨body, hmap, rfl⟩

/-- The object program of a program's listing has a record for each line and then the end. -/
theorem length_and_getLast?_of_run {p : Program} {symbols : SymbolTable} {records : List Record}
    (hfits : ∀ item ∈ p.items, item.content.Fits)
    (h : run symbols p.layout (p.listing.map Line.tokens) = .ok records) :
    records.length = p.listing.length + 1 ∧
      records.getLast? = some (.finish p.layout.entryAddress) := by
  obtain ⟨body, hmap, rfl⟩ := exists_records_of_run hfits h
  have hlength := congrArg List.length hmap
  rw [List.length_map, List.length_map] at hlength
  refine ⟨?_, List.getLast?_concat⟩
  rw [List.length_append, List.length_cons, ← hlength]
  rfl

/-- The object programs of a program before and after it is moved have a moved record for each line
of the listing. -/
theorem moves_records {p : Program} {new : Nat} {records records' : List Record}
    (hfits : ∀ item ∈ p.items, item.content.Fits)
    (h : run ⟨p.symbols⟩ p.layout (p.listing.map Line.tokens) = .ok records)
    (h' : run ⟨(p.moveTo new).symbols⟩ (p.moveTo new).layout
      ((p.moveTo new).listing.map Line.tokens) = .ok records') {i : Nat} {line : Line}
    (hi : p.listing[i]? = some line) :
    ∃ record record', records[i]? = some record ∧ records'[i]? = some record' ∧
      Record.Moves p.start new line record record' := by
  obtain ⟨body, hmap, rfl⟩ := exists_records_of_run hfits h
  obtain ⟨body', hmap', rfl⟩ := exists_records_of_run (p := p.moveTo new) hfits h'
  cases i with
  | zero =>
    obtain rfl := Option.some.inj hi
    have hheader : (p.moveTo new).start = moved p.start new p.start := (moved_self _ _).symm
    refine ⟨_, _, rfl, rfl, ?_⟩
    rw [hheader, p.programLength_moveTo new]
    exact .header
  | succ m =>
    have hi : (linesFrom p.start p.items)[m]? = some line := hi
    have hi' : (linesFrom new p.items)[m]? = some (line.move p.start new) := by
      rw [p.linesFrom_moveTo new, List.getElem?_map, hi]
      rfl
    obtain ⟨record, hrecord, htyped⟩ := Session.exists_record_after_header hmap hi _ _
    obtain ⟨record', hrecord', htyped'⟩ := Session.exists_record_after_header hmap' hi' _ _
    obtain ⟨a, item, -, rfl⟩ := Program.exists_item_of_linesFrom hi
    rw [p.symbols_moveTo new] at htyped'
    have hmoves := Listing.Content.moves_record?
      (fun entry hm ↦ (Program.address_of_mem_symbols hm).1) htyped htyped'
    exact ⟨record, record', hrecord, hrecord', hmoves⟩

end Encoding

namespace Placement

variable {options : Options} {table : OpTable} {label word operand operand' : String}
  {body : List (List String)} {old new : Nat} {placed : Placed} {symbols : SymbolTable}

/-- The listing text of a placed program whose body is that of a text has the tokens of its lines. -/
theorem ofText_render_placed {known : SymbolTable} {first : List String} {text : String}
    (h : run options table known (first :: Token.ofText text) = (.ok placed, symbols)) :
    Token.ofText (Listing.render placed.lines) = placed.lines.map Line.tokens := by
  obtain ⟨p, hreads, -, -, -, rfl, -⟩ := run_eq_ok_iff.mp h
  exact Program.ofText_render_listing_of_tail hreads fun _ ht ↦ Token.isLine_of_mem_ofText ht

/-- A source that is placed from an old start is placed from a new one, if it then ends at or below
the highest address, and all of it is moved. If the body is that of a text and both listing texts
can be encoded, the two object programs have a moved record for each line. -/
theorem run_relocates (hold : IsNumber 1 options.limit operand old)
    (hnew : IsNumber 1 options.limit operand' new)
    (h : run options table .empty ([label, word, operand] :: body) = (.ok placed, symbols))
    (hfit : moved old new placed.layout.locationCounter ≤ options.limit) :
    let g := grammar options table
    ∃ placed' symbols' k last,
      run options table .empty ([label, word, operand'] :: body) = (.ok placed', symbols') ∧
      g.EndsAt body k ∧ body[k]?.bind g.statement? = some last ∧
      IsMoved old new last placed placed' symbols symbols' ∧
      ∀ text records records', body = Token.ofText text →
        Encoding.run symbols placed.layout (Token.ofText (Listing.render placed.lines)) =
          .ok records →
        Encoding.run symbols' placed'.layout (Token.ofText (Listing.render placed'.lines)) =
          .ok records' →
        records.length = placed.lines.length + 1 ∧ records'.length = placed.lines.length + 1 ∧
        (∀ (i : Nat) (line : Line), placed.lines[i]? = some line →
          ∃ record record', records[i]? = some record ∧ records'[i]? = some record' ∧
            Record.Moves old new line record record') ∧
        records.getLast? = some (.finish placed.layout.entryAddress) ∧
        records'.getLast? = some (.finish placed'.layout.entryAddress) := by
  intro g
  have hstart := startAddress_eq_ok_iff.mpr hold
  have hstart' := startAddress_eq_ok_iff.mpr hnew
  obtain ⟨p, hreads, hbelow, hname, hfresh, rfl, rfl⟩ := run_eq_ok_iff.mp h
  obtain rfl : p.start = old := hreads.start_eq hstart
  have hreads' := hreads.moveTo hstart'
  obtain ⟨k, last, hends, hlast, hentry⟩ := hreads.exists_last
  have hrun := run_eq_ok_iff.mpr ⟨p.moveTo new, hreads', (p.finish_moveTo new).trans_le hfit, hname,
    p.fresh_moveTo new hfresh, rfl, rfl⟩
  refine ⟨_, _, k, last, hrun, hends, hlast, Program.isMoved_moveTo hreads hentry new, ?_⟩
  intro text records records' hbody hencode hencode'
  subst hbody
  have hfits := Program.fits_of_mem_items hreads hbelow options.limit_lt
  rw [ofText_render_placed h] at hencode
  rw [ofText_render_placed hrun] at hencode'
  obtain ⟨hlength, hend⟩ := Encoding.length_and_getLast?_of_run hfits hencode
  obtain ⟨hlength', hend'⟩ := Encoding.length_and_getLast?_of_run (p := p.moveTo new) hfits hencode'
  rw [p.listing_moveTo new, List.length_map] at hlength'
  refine ⟨hlength, hlength', ?_, hend, hend'⟩
  intro i line hi
  exact Encoding.moves_records hfits hencode hencode' hi

/-- A body whose first line refers to itself. -/
def movableText : String := "A JMP A\nRESB 2\nEND"

/-- The program of this body with a given start. -/
def movable (start : Nat) : Program where
  name := "P"
  start := start
  items := [⟨some "A", .instruction 5 (.symbol "A")⟩, ⟨none, .reserveBytes 2⟩]
  endLabel := none
  entry := none

private theorem ofText_movableText :
    Token.ofText movableText = [["A", "JMP", "A"], ["RESB", "2"], ["END"]] := by
  cbv

private theorem run_movable_low :
    run {} .standard .empty (["P", "START", "16"] :: Token.ofText movableText) =
      (.ok ⟨(movable 16).listing, (movable 16).layout⟩, ⟨(movable 16).symbols⟩) := by
  rw [ofText_movableText]
  decide +kernel

private theorem run_movable_high :
    run {} .standard .empty (["P", "START", "4096"] :: Token.ofText movableText) =
      (.ok ⟨(movable 4096).listing, (movable 4096).layout⟩, ⟨(movable 4096).symbols⟩) := by
  rw [ofText_movableText]
  decide +kernel

/-- The body, placed from address 16 and encoded, is placed from address 4096 and encoded with a
moved record for each line. -/
theorem run_relocates_sample :
    ∃ records records',
      run {} .standard .empty (["P", "START", "16"] :: Token.ofText movableText) =
        (.ok ⟨(movable 16).listing, (movable 16).layout⟩, ⟨(movable 16).symbols⟩) ∧
      moved 16 4096 (movable 16).layout.locationCounter ≤ maxField ∧
      Encoding.run ⟨(movable 16).symbols⟩ (movable 16).layout
        (Token.ofText (Listing.render (movable 16).listing)) = .ok records ∧
      Encoding.run ⟨(movable 4096).symbols⟩ (movable 4096).layout
        (Token.ofText (Listing.render (movable 4096).listing)) = .ok records' ∧
      (movable 4096).listing = (movable 16).listing.map (Line.move 16 4096) ∧
      ∀ (i : Nat) (line : Line), (movable 16).listing[i]? = some line →
        ∃ record record', records[i]? = some record ∧ records'[i]? = some record' ∧
          Record.Moves 16 4096 line record record' := by
  have hold : IsNumber 1 ({} : Options).limit "16" 16 :=
    ⟨Text.readDecimal?_eq_some_iff.mp (by cbv), by decide, by decide⟩
  have hnew : IsNumber 1 ({} : Options).limit "4096" 4096 :=
    ⟨Text.readDecimal?_eq_some_iff.mp (by cbv), by decide, by decide⟩
  have hfit : moved 16 4096 (movable 16).layout.locationCounter ≤ maxField := by decide
  obtain ⟨placed', symbols', k, last, hmoved, -, -, hmoves, htexts⟩ :=
    run_relocates hold hnew run_movable_low hfit
  rw [run_movable_high] at hmoved
  obtain ⟨hplaced, rfl⟩ := Prod.mk.inj hmoved
  obtain rfl := Except.ok.inj hplaced
  have hrecords : Encoding.run ⟨(movable 16).symbols⟩ (movable 16).layout
      (Token.ofText (Listing.render (movable 16).listing)) =
        .ok [.header "P" 16 6, .text "000010" 4 "05000010", .reserve "000014" 2, .finish 16] := by
    rw [ofText_render_placed run_movable_low]
    decide +kernel
  have hrecords' : Encoding.run ⟨(movable 4096).symbols⟩ (movable 4096).layout
      (Token.ofText (Listing.render (movable 4096).listing)) =
        .ok [.header "P" 4096 6, .text "001000" 4 "05001000", .reserve "001004" 2,
          .finish 4096] := by
    rw [ofText_render_placed run_movable_high]
    decide +kernel
  obtain ⟨-, -, hall, -⟩ := htexts movableText _ _ rfl hrecords hrecords'
  exact ⟨_, _, run_movable_low, hfit, hrecords, hrecords', hmoves.lines_eq, hall⟩

end Placement

end SicXe
