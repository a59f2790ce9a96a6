import SicXe.Proofs.Resolution
import SicXe.Proofs.Tiling

/-!
# The language of programs

Which sources can be placed is said here without addresses or symbol tables that grow: the first
line opens a program, the lines up to the end directive have operands that their mnemonics take, no
label is used twice, and all sizes together fit below the highest address. Placing a source succeeds
exactly on this language.
-/

namespace SicXe

open Listing (Content Line Operand)

/-! ### Literals -/

namespace Literal

/-- A literal is no decimal number, since it begins with a letter. -/
theorem IsQuoted.readDecimal? {mark : Char} {token : String} {cs : List Char}
    (hm : mark = 'C' ∨ mark = 'X') (h : IsQuoted mark token cs) :
    Text.readDecimal? token = none := by
  obtain ⟨letter, hl, he⟩ := h
  have hletter : letter ∈ ['C', 'c', 'X', 'x'] := by
    rcases hm with rfl | rfl <;> rcases hl with rfl | rfl <;> decide
  rw [Text.readDecimal?, he]
  fin_cases hletter <;> rfl

end Literal

/-! ### Operands -/

/-- What a storage directive takes as its operand, with the number of bytes that it then sets
aside. -/
inductive Storage.Takes : Storage → String → Nat → Prop
  | word {operand : String} {value : Nat} :
      Placement.IsNumber 1 maxField operand value → Takes .word operand 3
  | byte {operand : String} {value : Nat} :
      Placement.IsNumber 0 255 operand value → Takes .byte operand 1
  | characters {operand : String} {cs : List Char} :
      Literal.IsCharacters operand cs → Takes .byte operand cs.length
  | digits {operand : String} {ds : List Char} :
      Literal.IsDigits operand ds → Takes .byte operand ds.length
  | reserveWords {operand : String} {count : Nat} :
      Placement.IsNumber 1 255 operand count → Takes .reserveWords operand (3 * count)
  | reserveBytes {operand : String} {count : Nat} :
      Placement.IsNumber 1 255 operand count → Takes .reserveBytes operand count

/-- What an instruction of each width takes as its operands. -/
inductive Width.Takes (g : Grammar) : Width → Operands → Prop
  | none : Takes g .one .none
  | registers {i j : Nat} : 1 ≤ i ∧ i ≤ 16 → 1 ≤ j ∧ j ≤ 16 →
      Takes g .two (.two (Register.name i) (Register.name j))
  | byte {a : String} {value : Nat} : Placement.IsNumber 0 255 a value → Takes g .two (.one a)
  | label {a : String} : g.isLabel a = true → Takes g .four (.one a)
  | address {a : String} {value : Nat} :
      Placement.IsNumber 0 maxField a value → Takes g .four (.one a)

namespace Placement

variable {g : Grammar} {operand : String} {n : Nat}

private theorem toNat_ofNat {count : Nat} (h : IsNumber 1 255 operand count) :
    (UInt8.ofNat count).toNat = count := by
  have hle := h.2.2
  apply UInt8.toNat_ofNat_of_lt'
  simp only [UInt8.size]
  omega

/-- The byte directive has a content of a size exactly when it takes its operand with that size. -/
theorem byteContent_iff_takes :
    (∃ c, byteContent operand = .ok c ∧ c.size = n) ↔ Storage.Takes .byte operand n := by
  constructor
  · rintro ⟨c, hc, rfl⟩
    unfold byteContent at hc
    split at hc
    · next value hv =>
      split at hc
      · cases hc
      · next hr =>
        obtain rfl := Except.ok.inj hc
        exact .byte (isNumber_iff.mpr ⟨value, hv, hr⟩)
    · split at hc
      · next hs =>
        obtain ⟨cs, hcs⟩ := Option.isSome_iff_exists.mp hs
        obtain rfl := Except.ok.inj hc
        rw [Content.size, Literal.byteLength_of_characters? hcs, Nat.add_sub_cancel]
        exact .characters (Literal.characters?_iff_isCharacters.mp hcs)
      · split at hc
        · next hs =>
          obtain ⟨ds, hds⟩ := Option.isSome_iff_exists.mp hs
          obtain rfl := Except.ok.inj hc
          rw [Content.size, Literal.byteLength_of_digits? (Literal.digits?_uppercase hds),
            Nat.add_sub_cancel, List.length_map]
          exact .digits (Literal.digits?_iff_isDigits.mp hds)
        · cases hc
  · intro h
    unfold byteContent
    cases h with
    | byte hn =>
      obtain ⟨value, hv, hr⟩ := isNumber_iff.mp hn
      rw [hv]
      simp [hr, Content.size]
    | @characters _ cs hcs =>
      have hc := Literal.characters?_iff_isCharacters.mpr hcs
      refine ⟨.literal operand, by simp [hcs.1.readDecimal? (Or.inl rfl), hc], ?_⟩
      rw [Content.size, Literal.byteLength_of_characters? hc, Nat.add_sub_cancel]
    | @digits _ ds hds =>
      have hd := Literal.digits?_iff_isDigits.mpr hds
      have hc := Literal.characters?_eq_none_of_digits? hd
      refine ⟨.literal (Text.uppercase operand),
        by simp [hds.1.readDecimal? (Or.inr rfl), hc, hd], ?_⟩
      rw [Content.size, Literal.byteLength_of_digits? (Literal.digits?_uppercase hd),
        Nat.add_sub_cancel, List.length_map]

private theorem number_map_iff {low high : Nat} {f : Nat → Content} :
    (∃ c, (number low high operand).map f = .ok c ∧ c.size = n) ↔
      ∃ value, IsNumber low high operand value ∧ (f value).size = n := by
  simp only [map_eq_ok_iff, number_eq_ok_iff]
  constructor
  · rintro ⟨_, ⟨value, hv, rfl⟩, hn⟩
    exact ⟨value, hv, hn⟩
  · rintro ⟨value, hv, hn⟩
    exact ⟨_, ⟨value, hv, rfl⟩, hn⟩

/-- A storage directive has a content of a size exactly when it takes its operand with that size. -/
theorem storageContent_iff_takes {kind : Storage} :
    (∃ c, storageContent kind operand = .ok c ∧ c.size = n) ↔ kind.Takes operand n := by
  cases kind with
  | byte => exact byteContent_iff_takes
  | word =>
    apply number_map_iff.trans
    constructor
    · rintro ⟨value, hv, rfl⟩
      exact .word hv
    · intro h
      cases h with
      | word hv => exact ⟨_, hv, rfl⟩
  | reserveWords =>
    apply number_map_iff.trans
    constructor
    · rintro ⟨count, hv, rfl⟩
      rw [Content.size, toNat_ofNat hv]
      exact .reserveWords hv
    · intro h
      cases h with
      | @reserveWords _ count hv => exact ⟨count, hv, by rw [Content.size, toNat_ofNat hv]⟩
  | reserveBytes =>
    apply number_map_iff.trans
    constructor
    · rintro ⟨count, hv, rfl⟩
      rw [Content.size, toNat_ofNat hv]
      exact .reserveBytes hv
    · intro h
      cases h with
      | reserveBytes hv => exact ⟨n, hv, by rw [Content.size, toNat_ofNat hv]⟩

/-- An instruction has a content exactly when it takes its operands, and the content has the size
of its width. -/
theorem instructionContent_iff_takes {d : Definition} {operands : Operands} :
    (∃ c, instructionContent g d operands = .ok c ∧ c.size = n) ↔
      d.width.Takes g operands ∧ n = d.width.bytes := by
  constructor
  · rintro ⟨c, hc, rfl⟩
    unfold instructionContent at hc
    split at hc
    · next hw =>
      obtain rfl := Except.ok.inj hc
      rw [hw]
      exact ⟨.none, rfl⟩
    · cases hc
    · cases hc
    · next hw =>
      split at hc
      · next hr =>
        rw [Bool.and_eq_true] at hr
        obtain ⟨i, hi, rfl⟩ := Register.isName_iff.mp hr.1
        obtain ⟨j, hj, rfl⟩ := Register.isName_iff.mp hr.2
        obtain rfl := Except.ok.inj hc
        rw [hw]
        exact ⟨.registers hi hj, rfl⟩
      · cases hc
    · next hw =>
      obtain ⟨value, hv, rfl⟩ := map_eq_ok_iff.mp hc
      rw [hw]
      exact ⟨.byte (number_eq_ok_iff.mp hv), rfl⟩
    · next hw =>
      obtain ⟨operand, ho, ha⟩ := bind_eq_ok_iff.mp hc
      rw [Operands.single_eq_ok_iff.mp ho, hw]
      unfold addressContent at ha
      split at ha
      · next hl =>
        obtain rfl := Except.ok.inj ha
        exact ⟨.label hl, rfl⟩
      · split at ha
        · next value hv =>
          obtain rfl := Except.ok.inj ha
          exact ⟨.address (isNumber_iff.mpr (Option.bind_eq_some_iff.mp hv)), rfl⟩
        · cases ha
  · rintro ⟨h, rfl⟩
    unfold instructionContent
    generalize d.width = width at h
    cases h with
    | none => exact ⟨_, rfl, rfl⟩
    | registers hi hj =>
      have ha := Register.isName_iff.mpr ⟨_, hi, rfl⟩
      have hb := Register.isName_iff.mpr ⟨_, hj, rfl⟩
      exact ⟨_, if_pos (by rw [ha, hb]; rfl), rfl⟩
    | byte hv => exact ⟨_, map_eq_ok_iff.mpr ⟨_, number_eq_ok_iff.mpr hv, rfl⟩, rfl⟩
    | label hl => exact ⟨_, if_pos hl, rfl⟩
    | @address a value hv =>
      -- A decimal operand that is also a label would be placed as a label, of the same size.
      by_cases hl : g.isLabel a = true
      · exact ⟨_, if_pos hl, rfl⟩
      · have hread : (Text.readDecimal? a).bind (inRange? 0 maxField) = some value :=
          Option.bind_eq_some_iff.mpr (isNumber_iff.mp hv)
        refine ⟨.instruction d.codeByte (.address value), ?_, rfl⟩
        change addressContent g d.codeByte a = _
        rw [addressContent, if_neg hl, hread]

end Placement

/-! ### Lines of a program -/

namespace Grammar

variable (g : Grammar) (limit : Nat)

/-- A labelled start directive with one operand, an address above zero and within the limit. -/
def Opens (tokens : List String) (name : String) (address : Nat) : Prop :=
  ∃ s operand, g.statement? tokens = some s ∧ Directive.ofToken? s.mnemonic = some .start ∧
    s.label = some name ∧ s.operands = .one operand ∧ Placement.IsNumber 1 limit operand address

/-- A line that takes up memory: a storage directive with one operand that it takes or, when the
mnemonic is no directive, an instruction with operands that it takes. -/
def Occupies (tokens : List String) (size : Nat) : Prop :=
  ∃ s, g.statement? tokens = some s ∧
    ((∃ kind operand, Directive.ofToken? s.mnemonic = some (.storage kind) ∧
        s.operands = .one operand ∧ kind.Takes operand size) ∨
      ∃ d, Directive.ofToken? s.mnemonic = none ∧ g.table.find? s.mnemonic = some d ∧
        d.width.Takes g s.operands ∧ size = d.width.bytes)

/-- An end directive with at most one operand, an address within the limit. -/
def Closes (tokens : List String) : Prop :=
  ∃ s, g.statement? tokens = some s ∧ Directive.ofToken? s.mnemonic = some .finish ∧
    (s.operands = .none ∨ ∃ operand address, s.operands = .one operand ∧
      Placement.IsNumber 0 limit operand address)

/-- The labels of the token lines after the first one, up to a position. -/
def labelsUpTo (source : List (List String)) (k : Nat) : List String :=
  ((source.take (k + 1)).drop 1).filterMap g.lineLabel?

variable {g limit} {tokens : List String} {source : List (List String)}

/-- A mnemonic stands for a directive exactly when it names one. -/
theorem operation?_eq_directive_iff {mnemonic : String} {directive : Directive} :
    g.operation? mnemonic = some (.directive directive) ↔
      Directive.ofToken? mnemonic = some directive := by
  rw [operation?]
  cases Directive.ofToken? mnemonic with
  | none => simp
  | some other => simp

/-- A mnemonic stands for an instruction exactly when the table has it and it names no directive. -/
theorem operation?_eq_instruction_iff {mnemonic : String} {d : Definition} :
    g.operation? mnemonic = some (.instruction d) ↔
      Directive.ofToken? mnemonic = none ∧ g.table.find? mnemonic = some d := by
  rw [operation?]
  cases Directive.ofToken? mnemonic with
  | none => simp
  | some other => simp

/-- The lines that open a program. -/
theorem opens_iff_isStart {name : String} {address : Nat} :
    g.Opens limit tokens name address ↔ g.IsStart limit tokens name address := by
  simp only [Opens, IsStart, operation?_eq_directive_iff, Placement.startAddress_eq_ok_iff]

/-- The lines that take up memory. -/
theorem occupies_iff_isItem {size : Nat} :
    g.Occupies tokens size ↔ ∃ item, g.IsItem tokens item ∧ item.content.size = size := by
  constructor
  · rintro ⟨s, hs, ⟨kind, operand, hd, ho, ht⟩ | ⟨d, hd, hf, ht, hn⟩⟩
    · obtain ⟨c, hc, rfl⟩ := Placement.storageContent_iff_takes.mpr ht
      refine ⟨⟨s.label, c⟩, ⟨s, hs, rfl, ?_⟩, rfl⟩
      simp only [Placement.content, operation?_eq_directive_iff.mpr hd, ho, Operands.single]
      exact hc
    · obtain ⟨c, hc, rfl⟩ := Placement.instructionContent_iff_takes.mpr ⟨ht, hn⟩
      refine ⟨⟨s.label, c⟩, ⟨s, hs, rfl, ?_⟩, rfl⟩
      simp only [Placement.content, operation?_eq_instruction_iff.mpr ⟨hd, hf⟩]
      exact hc
  · rintro ⟨item, ⟨s, hs, -, hc⟩, hn⟩
    refine ⟨s, hs, ?_⟩
    unfold Placement.content at hc
    split at hc
    · next kind hk =>
      obtain ⟨operand, ho, hc⟩ := Placement.bind_eq_ok_iff.mp hc
      exact Or.inl ⟨kind, operand, operation?_eq_directive_iff.mp hk,
        Operands.single_eq_ok_iff.mp ho, Placement.storageContent_iff_takes.mp ⟨_, hc, hn⟩⟩
    · next d hd =>
      obtain ⟨hnone, hf⟩ := operation?_eq_instruction_iff.mp hd
      exact Or.inr ⟨d, hnone, hf, Placement.instructionContent_iff_takes.mp ⟨_, hc, hn⟩⟩
    · cases hc

/-- The lines that close a program. -/
theorem closes_iff_isEnd :
    g.Closes limit tokens ↔ ∃ label entry, g.IsEnd limit tokens label entry := by
  simp only [Closes, IsEnd, operation?_eq_directive_iff]
  constructor
  · rintro ⟨s, hs, hd, hnone | ⟨operand, address, hone, hn⟩⟩
    · refine ⟨s.label, none, s, hs, hd, rfl, ?_⟩
      rw [hnone]
      rfl
    · refine ⟨s.label, some address, s, hs, hd, rfl, ?_⟩
      rw [hone]
      exact ⟨address, Placement.entryAddress_eq_ok_iff.mpr hn, rfl⟩
  · rintro ⟨label, entry, s, hs, hd, -, he⟩
    refine ⟨s, hs, hd, ?_⟩
    cases ho : s.operands with
    | none => exact Or.inl rfl
    | one operand =>
      rw [ho] at he
      obtain ⟨address, ha, -⟩ := he
      exact Or.inr ⟨operand, address, rfl, Placement.entryAddress_eq_ok_iff.mp ha⟩
    | two a b =>
      rw [ho] at he
      cases he

/-! ### Bodies by position -/

/-- A body has its items at the positions of its token lines and then its end directive. -/
theorem body_iff {items : List Item} {last : Option String} {entry : Option Nat} :
    g.Body limit source items last entry ↔
      (∀ (m : Nat) (item : Item), items[m]? = some item →
        ∃ tokens ∈ source[m]?, g.IsItem tokens item) ∧
      ∃ tokens ∈ source[items.length]?, g.IsEnd limit tokens last entry := by
  constructor
  · intro h
    refine ⟨fun m item hm ↦ h.exists_isItem hm, ?_⟩
    induction h with
    | close hend => exact ⟨_, rfl, hend⟩
    | item _ _ ih => exact ih
  · intro h
    induction items generalizing source with
    | nil =>
      obtain ⟨tokens, ht, hend⟩ := h.2
      cases source with
      | nil => cases ht
      | cons first rest =>
        obtain rfl := Option.some.inj ht
        exact .close hend
    | cons item items ih =>
      obtain ⟨tokens, ht, hitem⟩ := h.1 0 item rfl
      cases source with
      | nil => cases ht
      | cons first rest =>
        obtain rfl := Option.some.inj ht
        exact .item hitem (ih ⟨fun m other hm ↦ h.1 (m + 1) other hm, h.2⟩)

/-- Token lines hold a body of items of given sizes exactly when each of them takes up that much
memory and the line after them closes the program. -/
theorem exists_body_iff {n : Nat} {size : Nat → Nat} :
    (∃ items last entry, g.Body limit source items last entry ∧ items.length = n ∧
        ∀ (m : Nat) (item : Item), items[m]? = some item → item.content.size = size m) ↔
      (∀ m < n, ∃ tokens ∈ source[m]?, g.Occupies tokens (size m)) ∧
        ∃ tokens ∈ source[n]?, g.Closes limit tokens := by
  constructor
  · rintro ⟨items, last, entry, hbody, rfl, hsize⟩
    obtain ⟨hitems, tokens, ht, hend⟩ := body_iff.mp hbody
    refine ⟨?_, tokens, ht, closes_iff_isEnd.mpr ⟨last, entry, hend⟩⟩
    intro m hm
    have hget : items[m]? = some (items.get ⟨m, hm⟩) := List.getElem?_eq_getElem hm
    obtain ⟨line, hline, hitem⟩ := hitems m _ hget
    exact ⟨line, hline, occupies_iff_isItem.mpr ⟨_, hitem, hsize m _ hget⟩⟩
  · rintro ⟨hall, tokens, ht, hcloses⟩
    obtain ⟨last, entry, hend⟩ := closes_iff_isEnd.mp hcloses
    have hitem : ∀ m : Fin n, ∃ item : Item,
        (∃ tokens ∈ source[m.val]?, g.IsItem tokens item) ∧ item.content.size = size m := by
      intro m
      obtain ⟨line, hline, ho⟩ := hall m m.isLt
      obtain ⟨item, hi, hs⟩ := occupies_iff_isItem.mp ho
      exact ⟨item, ⟨line, hline, hi⟩, hs⟩
    choose item hline hsize using hitem
    have hget : ∀ (m : Nat) (other : Item), (List.ofFn item)[m]? = some other →
        ∃ hm : m < n, other = item ⟨m, hm⟩ := by
      intro m other hm
      obtain ⟨hlt, he⟩ := List.getElem?_eq_some_iff.mp hm
      rw [List.length_ofFn] at hlt
      rw [List.getElem_ofFn] at he
      exact ⟨hlt, he.symm⟩
    refine ⟨List.ofFn item, last, entry, body_iff.mpr ⟨?_, ?_⟩, List.length_ofFn, ?_⟩
    · intro m other hm
      obtain ⟨hlt, rfl⟩ := hget m other hm
      exact hline ⟨m, hlt⟩
    · rw [List.length_ofFn]
      exact ⟨tokens, ht, hend⟩
    · intro m other hm
      obtain ⟨hlt, rfl⟩ := hget m other hm
      exact hsize ⟨m, hlt⟩

/-- The labels of the lines of a body are the names of the symbols that it defines. -/
theorem Body.filterMap_lineLabel? {items : List Item} {last : Option String} {entry : Option Nat}
    (h : g.Body limit source items last entry) (address : Nat) :
    (source.take (items.length + 1)).filterMap g.lineLabel? =
      (Program.symbolsOf (Program.slotsFrom address last items)).map Symbol.name := by
  induction h generalizing address with
  | @close tokens rest label entry hend =>
    obtain ⟨s, hs, -, rfl, -⟩ := hend
    rw [Program.slotsFrom, Program.symbolsOf_singleton]
    cases hl : s.label <;> simp [lineLabel?, hs, hl, Program.symbol?]
  | @item tokens rest item items label entry hitem _ ih =>
    obtain ⟨s, hs, hi, -⟩ := hitem
    rw [Program.slotsFrom, Program.symbolsOf_cons, List.map_append, ← ih, List.length_cons,
      List.take_succ_cons]
    cases hl : item.label <;> simp [lineLabel?, hs, hi, hl, Program.symbol?]

/-- The labels after the start directive are the names of the symbols of the program. -/
theorem Reads.labelsUpTo_eq {p : Program} (h : g.Reads limit source p) :
    g.labelsUpTo source p.listing.length = p.symbols.map Symbol.name := by
  obtain ⟨first, rest, rfl, -, hbody⟩ := h
  rw [p.length_listing, labelsUpTo, List.take_succ_cons, List.drop_one, List.tail_cons]
  exact hbody.filterMap_lineLabel? p.start

end Grammar

/-- Entries are new one after another when their names are new to the table and different. -/
theorem SymbolTable.fresh_iff_names {table : SymbolTable} {entries : List Symbol} :
    table.Fresh entries ↔
      (∀ name ∈ entries.map Symbol.name, table.contains name = false) ∧
        (entries.map Symbol.name).Pairwise fun a b ↦ Text.sameName a b = false := by
  rw [fresh_iff, List.forall_mem_map, List.pairwise_map]

/-- The sizes at the positions of items add up to their extent. -/
theorem Program.sum_sizes {items : List Item} {size : Nat → Nat}
    (h : ∀ (m : Nat) (item : Item), items[m]? = some item → item.content.size = size (m + 1)) :
    ∑ i ∈ Finset.Ico 1 (items.length + 1), size i = extent items := by
  rw [Finset.sum_Ico_eq_sum_range, Nat.add_sub_cancel, extent, ← Fin.sum_univ_fun_getElem,
    ← Fin.sum_univ_eq_sum_range]
  apply Finset.sum_congr rfl
  intro m _
  rw [Nat.add_comm]
  exact (h m _ (List.getElem?_eq_getElem m.isLt)).symm

/-! ### The language -/

namespace Grammar

/-- A source whose program ends at position `k`, starts at an address and has lines of given sizes:
its first line opens the program under a new name, the lines up to the end directive take up
memory, the labels after the first line are new and different, and everything fits below the
limit. -/
structure IsSentence (g : Grammar) (limit : Nat) (known : SymbolTable)
    (source : List (List String)) (k start : Nat) (size : Nat → Nat) : Prop where
  one_le : 1 ≤ k
  lt_length : k < source.length
  opens : ∃ tokens ∈ source[0]?, ∃ name, g.Opens limit tokens name start ∧
    known.contains name = false
  occupies : ∀ i, 0 < i → i < k → ∃ tokens ∈ source[i]?, g.Occupies tokens (size i)
  closes : ∃ tokens ∈ source[k]?, g.Closes limit tokens
  labels_new : ∀ label ∈ g.labelsUpTo source k, known.contains label = false
  labels_differ : (g.labelsUpTo source k).Pairwise fun a b ↦ Text.sameName a b = false
  fits : start + ∑ i ∈ Finset.Ico 1 k, size i ≤ limit

variable {g : Grammar} {limit : Nat} {known : SymbolTable} {source : List (List String)}

/-- A program that fits and whose labels are new is a sentence of the language. -/
theorem Reads.exists_isSentence {p : Program} (h : g.Reads limit source p)
    (hfit : p.finish ≤ limit) (hname : known.contains p.name = false)
    (hfresh : known.Fresh p.symbols) :
    ∃ size, g.IsSentence limit known source p.listing.length p.start size := by
  have hlabels := h.labelsUpTo_eq
  obtain ⟨hnew, hdiffer⟩ := SymbolTable.fresh_iff_names.mp hfresh
  obtain ⟨first, rest, rfl, hstart, hbody⟩ := h
  let size (i : Nat) : Nat := (p.items[i - 1]?.map fun item ↦ item.content.size).getD 0
  have hsize : ∀ (m : Nat) (item : Item), p.items[m]? = some item →
      item.content.size = size (m + 1) := by
    intro m item hm
    simp [size, hm]
  obtain ⟨hlines, last, hlast, hcloses⟩ :=
    exists_body_iff.mp ⟨p.items, p.endLabel, p.entry, hbody, rfl, hsize⟩
  have hlength : p.items.length < rest.length := (List.getElem?_eq_some_iff.mp hlast).1
  rw [p.length_listing] at hlabels ⊢
  refine ⟨size, by omega, by rw [List.length_cons]; omega,
    ⟨first, rfl, p.name, opens_iff_isStart.mpr hstart, hname⟩, ?_, ⟨last, hlast, hcloses⟩,
    by rwa [hlabels], by rwa [hlabels], by rwa [Program.sum_sizes hsize]⟩
  intro i hpos hi
  cases i with
  | zero => omega
  | succ m => exact hlines m (by omega)

/-- A sentence of the language is a program that fits and whose labels are new. -/
theorem IsSentence.exists_program {k start : Nat} {size : Nat → Nat}
    (h : g.IsSentence limit known source k start size) :
    ∃ p : Program, g.Reads limit source p ∧ p.finish ≤ limit ∧
      known.contains p.name = false ∧ known.Fresh p.symbols := by
  obtain ⟨first, hfirst, name, hopens, hname⟩ := h.opens
  have hpos := h.one_le
  cases source with
  | nil => cases hfirst
  | cons head rest =>
    obtain rfl := Option.some.inj hfirst
    cases k with
    | zero => omega
    | succ n =>
      have hlines : ∀ m < n, ∃ tokens ∈ rest[m]?, g.Occupies tokens (size (m + 1)) :=
        fun m hm ↦ h.occupies (m + 1) (by omega) (by omega)
      obtain ⟨items, label, entry, hbody, rfl, hsize⟩ :=
        exists_body_iff.mpr ⟨hlines, h.closes⟩
      let p : Program := ⟨name, start, items, label, entry⟩
      have hreads : g.Reads limit (head :: rest) p :=
        ⟨head, rest, rfl, opens_iff_isStart.mp hopens, hbody⟩
      have hlabels := hreads.labelsUpTo_eq
      rw [p.length_listing] at hlabels
      refine ⟨p, hreads, ?_, hname, SymbolTable.fresh_iff_names.mpr ?_⟩
      · have hfit := h.fits
        rwa [Program.sum_sizes hsize] at hfit
      · rw [← hlabels]
        exact ⟨h.labels_new, h.labels_differ⟩

end Grammar

/-- A source is placed exactly when it is a sentence of the language: its first line opens a
program, the lines up to an end directive have operands that their mnemonics take, the labels are
new and different, and the sizes of all lines fit between the start address and the limit. -/
theorem Placement.run_succeeds_iff (options : Options) (table : OpTable) (known : SymbolTable)
    (source : List (List String)) :
    (∃ placed, (run options table known source).1 = .ok placed) ↔
      ∃ k start size,
        (grammar options table).IsSentence options.limit known source k start size := by
  constructor
  · rintro ⟨placed, h⟩
    obtain ⟨p, hreads, hfit, hname, hfresh, -, -⟩ := run_eq_ok_iff.mp (Prod.ext h rfl)
    obtain ⟨size, hsentence⟩ := hreads.exists_isSentence hfit hname hfresh
    exact ⟨_, _, size, hsentence⟩
  · rintro ⟨k, start, size, hsentence⟩
    obtain ⟨p, hreads, hfit, hname, hfresh⟩ := hsentence.exists_program
    have hrun := run_eq_ok_iff.mpr ⟨p, hreads, hfit, hname, hfresh, rfl, rfl⟩
    exact ⟨_, congrArg Prod.fst hrun⟩

end SicXe
