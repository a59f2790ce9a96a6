import SicXe.Proofs.LetterCase

/-!
# Raised limits

The limits of an assembler decide which sources it accepts, but not what it makes of a source that
it accepts. A greater length lets more tokens be labels. None of them can have had another role in
an accepted line: a label is no mnemonic, so no line is read anew, and it begins with a letter, so
no number becomes a label operand. A higher address only lets more numbers and sizes pass.
-/

namespace SicXe

/-! ### Grammars with longer labels -/

namespace Grammar

/-- Two grammars with the same table, the second of which allows labels that are at least as
long. -/
structure Within (g wide : Grammar) : Prop where
  table_eq : wide.table = g.table
  maxLabelLength_le : g.maxLabelLength ≤ wide.maxLabelLength

namespace Within

variable {g wide : Grammar} {tokens : List String} {s : Statement}

/-- The instructions are the same. -/
theorem isInstruction_eq (h : g.Within wide) (token : String) :
    wide.isInstruction token = g.isInstruction token := by
  rw [isInstruction, h.table_eq, isInstruction]

/-- The mnemonics are the same. -/
theorem isMnemonic_eq (h : g.Within wide) (token : String) :
    wide.isMnemonic token = g.isMnemonic token := by
  rw [isMnemonic, h.isInstruction_eq, isMnemonic]

/-- The mnemonics without operands are the same. -/
theorem standsAlone_eq (h : g.Within wide) (token : String) :
    wide.standsAlone token = g.standsAlone token := by
  rw [standsAlone, h.isInstruction_eq, standsAlone]

/-- Mnemonics stand for the same operations. -/
theorem operation?_eq (h : g.Within wide) (mnemonic : String) :
    wide.operation? mnemonic = g.operation? mnemonic := by
  rw [operation?, h.table_eq, operation?]

/-- A label stays a label. -/
theorem isLabel (h : g.Within wide) {token : String} (hl : g.isLabel token = true) :
    wide.isLabel token = true := by
  unfold Grammar.isLabel at hl ⊢
  cases ht : token.toList with
  | nil => simp [ht] at hl
  | cons c cs =>
    have hle := h.maxLabelLength_le
    simp only [ht, h.isMnemonic_eq, Bool.and_eq_true, decide_eq_true_eq] at hl ⊢
    refine ⟨⟨⟨⟨hl.1.1.1.1, ?_⟩, hl.1.1.2⟩, hl.1.2⟩, hl.2⟩
    exact Nat.le_trans hl.1.1.1.2 hle

/-- A mnemonic does not become a label. -/
theorem isLabel_of_isMnemonic (h : g.Within wide) {token : String}
    (hm : g.isMnemonic token = true) : wide.isLabel token = false := by
  apply isLabel_eq_false_of_isMnemonic
  rw [h.isMnemonic_eq, hm]

/-- A line that has a reading keeps it. -/
theorem statement? (h : g.Within wide) (hs : g.statement? tokens = some s) :
    wide.statement? tokens = some s := by
  -- A line with a label keeps the label. In a line without one the first token is a mnemonic, which
  -- the wider grammar does not take for a label either.
  match tokens with
  | [] => simp [Grammar.statement?] at hs
  | [a] => simpa only [Grammar.statement?, h.isInstruction_eq] using hs
  | [a, b] =>
    simp only [Grammar.statement?, h.isMnemonic_eq, h.standsAlone_eq] at hs ⊢
    by_cases hl : (g.isLabel a && g.standsAlone b) = true
    · rw [if_pos hl] at hs
      rw [Bool.and_eq_true] at hl
      simpa only [h.isLabel hl.1, hl.2, Bool.and_self, ↓reduceIte] using hs
    · rw [if_neg hl] at hs
      split at hs
      · next hm => simpa only [h.isLabel_of_isMnemonic hm, Bool.false_and, Bool.false_eq_true,
          ↓reduceIte, hm] using hs
      · cases hs
  | [a, b, c] =>
    simp only [Grammar.statement?, h.isMnemonic_eq, h.isInstruction_eq] at hs ⊢
    by_cases hl : (g.isLabel a && g.isMnemonic b) = true
    · rw [if_pos hl] at hs
      rw [Bool.and_eq_true] at hl
      simpa only [h.isLabel hl.1, hl.2, Bool.and_self, ↓reduceIte] using hs
    · rw [if_neg hl] at hs
      split at hs
      · next hi =>
        have hm : g.isMnemonic a = true := by rw [Grammar.isMnemonic, hi, Bool.true_or]
        simpa only [h.isLabel_of_isMnemonic hm, Bool.false_and, Bool.false_eq_true, ↓reduceIte,
          hi] using hs
      · cases hs
  | [a, b, c, d] =>
    simp only [Grammar.statement?, h.isInstruction_eq] at hs ⊢
    split at hs
    · next hl =>
      rw [Bool.and_eq_true] at hl
      simpa only [h.isLabel hl.1, hl.2, Bool.and_self, ↓reduceIte] using hs
    · cases hs
  | _ :: _ :: _ :: _ :: _ :: _ => simp [Grammar.statement?] at hs

end Within

end Grammar

/-! ### Contents and lines under raised limits -/

namespace Placement

open Listing (Content)

variable {g wide : Grammar} {s : Statement} {c : Content} {low high higher n : Nat}
  {operand : String}

/-- A number within bounds is within a greater upper bound. -/
theorem IsNumber.mono (h : IsNumber low high operand n) (hle : high ≤ higher) :
    IsNumber low higher operand n :=
  ⟨h.1, h.2.1, Nat.le_trans h.2.2 hle⟩

/-- An address operand that is taken stays what it is: a label, or a number, which is no label in
any grammar. -/
theorem addressContent_within (h : g.Within wide) {code : UInt8}
    (hc : addressContent g code operand = .ok c) : addressContent wide code operand = .ok c := by
  unfold addressContent at hc ⊢
  by_cases hl : g.isLabel operand = true
  · rw [if_pos hl] at hc
    rw [if_pos (h.isLabel hl), hc]
  · rw [if_neg hl] at hc
    cases hw : wide.isLabel operand with
    | false => simpa using hc
    | true =>
      rw [(Grammar.isIdentifier_of_isLabel hw).readDecimal?] at hc
      cases hc

/-- An instruction keeps the content that it has. -/
theorem instructionContent_within (h : g.Within wide) {d : Definition} {operands : Operands}
    (hc : instructionContent g d operands = .ok c) :
    instructionContent wide d operands = .ok c := by
  cases hw : d.width with
  | one => cases operands <;> simpa only [instructionContent, hw] using hc
  | two => cases operands <;> simpa only [instructionContent, hw] using hc
  | four =>
    simp only [instructionContent, hw] at hc ⊢
    cases operands with
    | none => cases hc
    | one operand => exact addressContent_within h hc
    | two first second => cases hc

/-- A statement keeps the content that it has. -/
theorem content_within (h : g.Within wide) (hc : content g s = .ok c) :
    content wide s = .ok c := by
  unfold content at hc ⊢
  rw [h.operation?_eq]
  split at hc
  · exact hc
  · exact instructionContent_within h hc
  · cases hc

end Placement

namespace Grammar

open Placement (startAddress_eq_ok_iff entryAddress_eq_ok_iff)

variable {g wide : Grammar} {limit higher : Nat} {tokens : List String}
  {source : List (List String)}

/-- A line that opens a program still opens it. -/
theorem IsStart.mono (hg : g.Within wide) (hle : limit ≤ higher) {name : String} {address : Nat}
    (h : g.IsStart limit tokens name address) : wide.IsStart higher tokens name address := by
  obtain ⟨s, operand, hs, ho, hl, hop, ha⟩ := h
  refine ⟨s, operand, hg.statement? hs, ?_, hl, hop, ?_⟩
  · rw [hg.operation?_eq, ho]
  · apply startAddress_eq_ok_iff.mpr
    exact (startAddress_eq_ok_iff.mp ha).mono hle

/-- A line that takes up memory still holds the same. -/
theorem IsItem.mono (hg : g.Within wide) {item : Item} (h : g.IsItem tokens item) :
    wide.IsItem tokens item := by
  obtain ⟨s, hs, hl, hc⟩ := h
  exact ⟨s, hg.statement? hs, hl, Placement.content_within hg hc⟩

/-- Operands of an end directive still ask for the same entry address. -/
theorem Entry.mono (hle : limit ≤ higher) {operands : Operands} {entry : Option Nat}
    (h : Entry limit operands entry) : Entry higher operands entry := by
  cases operands with
  | none => exact h
  | one operand =>
    obtain ⟨address, ha, he⟩ := h
    refine ⟨address, ?_, he⟩
    apply entryAddress_eq_ok_iff.mpr
    exact (entryAddress_eq_ok_iff.mp ha).mono hle
  | two first second => exact h

/-- A line that closes a program still closes it. -/
theorem IsEnd.mono (hg : g.Within wide) (hle : limit ≤ higher) {label : Option String}
    {entry : Option Nat} (h : g.IsEnd limit tokens label entry) :
    wide.IsEnd higher tokens label entry := by
  obtain ⟨s, hs, ho, hl, he⟩ := h
  refine ⟨s, hg.statement? hs, ?_, hl, he.mono hle⟩
  rw [hg.operation?_eq, ho]

/-- The body of a program keeps its items and its end. -/
theorem Body.mono (hg : g.Within wide) (hle : limit ≤ higher) {items : List Item}
    {label : Option String} {entry : Option Nat} (h : g.Body limit source items label entry) :
    wide.Body higher source items label entry := by
  induction h with
  | close hend => exact .close (hend.mono hg hle)
  | item hitem _ ih => exact .item (hitem.mono hg) ih

/-- A source that reads as a program still reads as the same program. -/
theorem Reads.mono (hg : g.Within wide) (hle : limit ≤ higher) {p : Program}
    (h : g.Reads limit source p) : wide.Reads higher source p := by
  obtain ⟨first, rest, hsource, hstart, hbody⟩ := h
  exact ⟨first, rest, hsource, hstart.mono hg hle, hbody.mono hg hle⟩

end Grammar

namespace Placement

/-- A source that is placed under some limits is placed under limits that are at least as high, with
the same lines, the same layout and the same symbols. -/
theorem run_of_raised_limits {options raised : Options} {table : OpTable}
    {known final : SymbolTable} {source : List (List String)} {placed : Placed}
    (haddress : options.maxAddress ≤ raised.maxAddress)
    (hlength : options.maxLabelLength ≤ raised.maxLabelLength)
    (h : run options table known source = (.ok placed, final)) :
    run raised table known source = (.ok placed, final) := by
  have hg : (grammar options table).Within (grammar raised table) := ⟨rfl, hlength⟩
  obtain ⟨p, hreads, hfit, hname, hfresh, hplaced, hfinal⟩ := run_eq_ok_iff.mp h
  have hlimit := Options.limit_le_limit haddress
  apply run_eq_ok_iff.mpr
  exact ⟨p, hreads.mono hg hlimit, Nat.le_trans hfit hlimit, hname, hfresh, hplaced, hfinal⟩

/-- A source with a label of one character before and after a mnemonic that would be spelled as a
label of six. -/
def tightSource : List (List String) :=
  [["P", "START", "16"], ["A", "SAVER1", "7"], ["SAVER1", "A"], ["END"]]

/-- The source is placed under limits that leave it no room, and so it is placed in the same way
under the standard ones. -/
theorem run_of_raised_limits_tight :
    ∃ placed final,
      run { maxAddress := 24, maxLabelLength := 1 } .standard .empty tightSource =
        (.ok placed, final) ∧
      run {} .standard .empty tightSource = (.ok placed, final) := by
  have hrun : run { maxAddress := 24, maxLabelLength := 1 } .standard .empty tightSource =
      (.ok ⟨[.start "P" 16, .body 16 (.instruction 20 (.address 7)),
        .body 20 (.instruction 21 (.symbol "A"))], ⟨24, 16, 16, true, true⟩⟩, ⟨[⟨"A", 16⟩]⟩) := by
    decide +kernel
  exact ⟨_, _, hrun, run_of_raised_limits (by decide) (by decide) hrun⟩

end Placement

end SicXe
