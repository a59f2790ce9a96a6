import SicXe.Proofs.Resolution
import SicXe.Proofs.Tiling

/-!
# Accounting for bytes

The sizes of lines are found twice: placing takes them from the typed contents, encoding from the
text of the listing. The two agree on every line but an instruction with a number as its only
operand, whose record counts the bytes of the operand and leaves out the code byte. So the length
in the header is the sum of all record lengths and of one byte for each such instruction.
-/

namespace SicXe

open Listing (Content Line Operand)
open Program (extent linesFrom)

/-- The number of bytes that a record loads or sets aside; header and end do neither. -/
def Record.bytes? : Record → Option Nat
  | text _ length _ | reserve _ length => some length
  | header _ _ _ | finish _ => none

namespace Listing

/-- An instruction whose only operand is a number. -/
def Content.isImmediate : Content → Bool
  | instruction _ (.byte _) | instruction _ (.address _) => true
  | _ => false

/-- A line with an instruction whose only operand is a number. -/
def Line.isImmediate : Line → Bool
  | start _ _ => false
  | body _ content => content.isImmediate

/-! ### One line -/

/-- The text of an instruction is as long as the instruction, or a byte shorter if its only operand
is a number. -/
theorem Operand.length_text? {symbols : SymbolTable} {code : UInt8} {operand : Operand}
    {length : Nat} {payload : String} (h : operand.text? symbols code = some (length, payload)) :
    operand.size =
      if (Content.instruction code operand).isImmediate then length + 1 else length := by
  cases operand with
  | none =>
    obtain ⟨rfl, -⟩ := Prod.mk.inj (Option.some.inj h)
    rfl
  | registers first second =>
    simp only [text?] at h
    split at h
    · obtain ⟨rfl, -⟩ := Prod.mk.inj (Option.some.inj h)
      rfl
    · cases h
  | byte value =>
    obtain ⟨rfl, -⟩ := Prod.mk.inj (Option.some.inj h)
    rfl
  | address value =>
    obtain ⟨rfl, -⟩ := Prod.mk.inj (Option.some.inj h)
    rfl
  | symbol name =>
    obtain ⟨entry, -, he⟩ := Option.map_eq_some_iff.mp h
    obtain ⟨rfl, -⟩ := Prod.mk.inj he
    rfl

/-- The record of a content accounts for the memory that the content takes up, less a byte for an
instruction whose only operand is a number. -/
theorem Content.size_eq_bytes {c : Content} {symbols : SymbolTable} {label : String}
    {record : Record} (h : c.record? symbols label = some record) :
    ∃ bytes, record.bytes? = some bytes ∧
      c.size = if c.isImmediate then bytes + 1 else bytes := by
  cases c with
  | literal token =>
    obtain ⟨⟨length, payload⟩, hl, rfl⟩ := Option.map_eq_some_iff.mp h
    exact ⟨length, rfl, length_literalText? hl⟩
  | instruction code operand =>
    obtain ⟨⟨length, payload⟩, ht, rfl⟩ := Option.map_eq_some_iff.mp h
    exact ⟨length, rfl, Operand.length_text? ht⟩
  | _ =>
    obtain rfl := Option.some.inj h
    exact ⟨_, rfl, rfl⟩

end Listing

/-! ### All lines -/

/-- Items take up what their records account for, and a byte for each instruction whose only operand
is a number. -/
theorem Program.extent_eq_sum {symbols : SymbolTable} {address : Nat} {items : List Item}
    {records : List Record}
    (h : (linesFrom address items).map (Line.record? symbols) = records.map some) :
    extent items = (records.filterMap Record.bytes?).sum +
      (linesFrom address items).countP Line.isImmediate := by
  induction items generalizing address records with
  | nil =>
    obtain rfl := List.map_eq_nil_iff.mp h.symm
    rfl
  | cons item items ih =>
    cases records with
    | nil => cases h
    | cons record records =>
      rw [linesFrom, List.map_cons, List.map_cons, List.cons.injEq] at h
      obtain ⟨hfirst, hrest⟩ := h
      obtain ⟨bytes, hbytes, hsize⟩ := Content.size_eq_bytes hfirst
      have hothers := ih hrest
      rw [extent_cons, linesFrom, List.countP_cons, List.filterMap_cons_some hbytes,
        List.sum_cons, Line.isImmediate]
      by_cases himm : item.content.isImmediate = true
      · rw [if_pos himm] at hsize ⊢
        omega
      · rw [if_neg himm] at hsize ⊢
        omega

namespace Session

variable {session after : Session} {source : String} {assembly : Assembly}

/-- The entry address of an assembled source lies inside its program. -/
theorem entryInside_of_assemble (h : session.assemble source = (.ok assembly, after)) :
    after.layout.entryInside = true := by
  obtain ⟨hplace, hencode, -⟩ := assemble_eq_ok h
  have outcome := encode_outcome hplace
  rw [hencode] at outcome
  generalize assembly.records = records at outcome
  cases outcome with
  | records _ _ _ hinside => exact hinside

/-- In an assembled source the record of each line accounts for the bytes from the address of the
line to the address of the next one, less a byte for an instruction whose only operand is a number.
So the length in the header is the sum of all record lengths and of one byte for each such
instruction, and the entry address lies between the start and the end that the header gives. -/
theorem assemble_accounts_bytes (h : session.assemble source = (.ok assembly, after)) :
    ∃ name start length records entry,
      assembly.records = .header name start length :: records ++ [.finish entry] ∧
      assembly.listing.length = records.length + 1 ∧
      (∀ (i address : Nat) (content : Content),
        assembly.listing[i]? = some (.body address content) →
        ∃ record bytes, assembly.records[i]? = some record ∧ record.bytes? = some bytes ∧
          (Placement.Placed.mk assembly.listing after.layout).addressAt (i + 1) =
            address + if content.isImmediate then bytes + 1 else bytes) ∧
      length = (assembly.records.filterMap Record.bytes?).sum +
        assembly.listing.countP Line.isImmediate ∧
      start ≤ entry ∧ entry ≤ start + length := by
  have hinside := entryInside_of_assemble h
  obtain ⟨p, records, hreads, -, -, hlayout, hlisting, hmap, hrecords⟩ :=
    exists_program_of_assemble h
  have htiles : Listing.Tiles p.start (linesFrom p.start p.items) p.finish :=
    Program.tiles_linesFrom (Program.wellFormed_of_mem_items hreads) p.start
  have hlength : (linesFrom p.start p.items).length = records.length := by
    simpa using congrArg List.length hmap
  have hsum := Program.extent_eq_sum hmap
  have hfinish : p.finish - p.start = extent p.items := Nat.add_sub_cancel_left _ _
  refine ⟨_, _, _, records, _, hrecords, ?_, ?_, ?_, ?_⟩
  · rw [hlisting, Program.listing, List.length_cons, hlength]
  · intro i address content hi
    rw [hlisting] at hi ⊢
    rw [hlayout, hrecords]
    have hwf : (Line.body address content).WellFormed :=
      Program.wellFormed_of_mem_listing hreads (List.mem_of_getElem? hi)
    -- The opening line has no content, so the line and its record are those of an item.
    cases i with
    | zero => cases Option.some.inj hi
    | succ m =>
      obtain ⟨record, hrecord, htyped⟩ := exists_record_after_header hmap hi _ _
      obtain ⟨bytes, hbytes, hsize⟩ := Content.size_eq_bytes htyped
      obtain ⟨found, size, hbody, hmeasure, -, -, -, hnext⟩ := htiles.ends_at_next hi
      obtain ⟨-, rfl⟩ := Line.body.inj hbody
      rw [Content.WellFormed.measure?_eq hwf] at hmeasure
      obtain rfl := Option.some.inj hmeasure
      rw [hsize] at hnext
      exact ⟨record, bytes, hrecord, hbytes, hnext⟩
  · rw [hrecords, hlisting, hfinish, hsum]
    simp [Program.listing, List.filterMap_cons, Record.bytes?, Line.isImmediate]
  · rw [hlayout, Layout.entryInside, Bool.and_eq_true, decide_eq_true_eq,
      decide_eq_true_eq] at hinside
    rw [hfinish]
    exact hinside

/-- A text with the two kinds of instructions whose only operand is a number. -/
def immediateText : String := "P START 16\nADD 7\nJMP 300\nEND 22"

private theorem place_immediateText :
    (start {}).place (Token.ofText immediateText) =
      (.ok [.start "P" 16, .body 16 (.instruction 16 (.byte 7)),
          .body 18 (.instruction 4 (.address 300))],
        { start {} with layout := ⟨22, 16, 22, true, true⟩ }) := by
  have htokens : Token.ofText immediateText =
      [["P", "START", "16"], ["ADD", "7"], ["JMP", "300"], ["END", "22"]] := by
    cbv
  rw [htokens]
  decide +kernel

/-- The record of the first instruction accounts for one byte less than the instruction takes up. -/
theorem assemble_accounts_bytes_sample :
    ∃ assembly after, (start {}).assemble immediateText = (.ok assembly, after) ∧
      assembly.listing[1]? = some (.body 16 (.instruction 16 (.byte 7))) ∧
      ∃ record bytes, assembly.records[1]? = some record ∧ record.bytes? = some bytes ∧
        (Placement.Placed.mk assembly.listing after.layout).addressAt 2 = 16 + (bytes + 1) := by
  obtain ⟨assembly, h⟩ := exists_assembly place_immediateText
    (by simp [Line.IsUnresolved]) (by decide)
  have hline : assembly.listing[1]? = some (.body 16 (.instruction 16 (.byte 7))) := by
    have hplace := (assemble_eq_ok h).1
    rw [place_immediateText] at hplace
    rw [← Except.ok.inj (Prod.mk.inj hplace).1]
    rfl
  obtain ⟨-, -, -, -, -, -, -, hall, -⟩ := assemble_accounts_bytes h
  obtain ⟨record, bytes, hrecord, hbytes, hnext⟩ := hall 1 16 _ hline
  exact ⟨assembly, _, h, hline, record, bytes, hrecord, hbytes, hnext⟩

end Session

end SicXe
