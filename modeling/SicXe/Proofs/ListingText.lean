import SicXe.Proofs.Numbers
import SicXe.Proofs.Program

/-!
# The text of a listing

The listing of a program is handed on as text. Its lines consist of words, that is of literals on
one line and of plain tokens without quotes, so the text has exactly the token lists of the lines;
and the token list of a well-formed line determines the line, since a reader recovers address,
content and operand from it. The text of a listing therefore loses nothing.
-/

namespace SicXe

namespace Token

/-- A token that reads back next to any other tokens: a literal on one line, or a plain token
without quotes. -/
def IsWord (token : String) : Prop :=
  (IsLiteral token.toList ∧ '\n' ∉ token.toList) ∨ (IsPlain token.toList ∧ '"' ∉ token.toList)

/-- A word holds no line feed. -/
theorem IsWord.oneLine {token : String} (h : IsWord token) : '\n' ∉ token.toList := by
  rcases h with ⟨-, hn⟩ | ⟨hp, -⟩
  · exact hn
  · intro hn
    have := hp.2 '\n' hn
    exact absurd this (by decide)

/-- Words form a line. -/
theorem isLine_of_isWord {tokens : List String} (hne : tokens ≠ [])
    (h : ∀ token ∈ tokens, IsWord token) : IsLine tokens := by
  refine ⟨hne, ?_, fun token ht ↦ (h token ht).oneLine⟩
  clear hne
  induction tokens with
  | nil => trivial
  | cons token rest ih =>
    refine ⟨?_, ih fun other ho ↦ h other (List.mem_cons_of_mem token ho)⟩
    rcases h token List.mem_cons_self with ⟨hl, -⟩ | ⟨hp, hq⟩
    · exact Or.inl hl
    · refine Or.inr ⟨hp, ?_⟩
      rintro ⟨mark, body, -, he⟩
      rw [he] at hq
      simp at hq

/-- A written number is a word. -/
theorem isWord_hex (width n : Nat) : IsWord (Text.hex width n) :=
  Or.inr ⟨Text.isPlain_hex width n, Text.not_mem_hex (by decide) width n⟩

end Token

/-- An identifier is a word. -/
theorem IsIdentifier.isWord {name : String} (h : IsIdentifier name) : Token.IsWord name :=
  Or.inr ⟨h.isPlain, h.quote_not_mem⟩

private theorem isIdentifier_of_all {token : String} {c : Char} {cs : List Char}
    (h : token.toList = c :: cs) (hc : c.isAlpha = true) (hcs : cs.all isNameCharacter = true) :
    IsIdentifier token :=
  ⟨c, cs, h, hc, List.all_eq_true.mp hcs⟩

/-- The name of a directive is an identifier. -/
theorem Directive.isIdentifier_name (d : Directive) : IsIdentifier d.name := by
  rcases d with _ | _ | (_ | _ | _ | _) <;> exact isIdentifier_of_all rfl rfl rfl

namespace Grammar

variable {g : Grammar} {tokens : List String} {s : Statement}

/-- A token line with a statement is a label, if there is one, a mnemonic and operands. -/
theorem exists_written (h : g.statement? tokens = some s) :
    ∃ (label : Option String) (mnemonic : String) (operands : Operands),
      tokens = label.toList ++ mnemonic :: operands.toList ∧
        s = .ofWritten label mnemonic operands ∧ ∀ token ∈ label, g.isLabel token = true := by
  unfold statement? at h
  split at h
  · next a =>
    split at h
    · exact ⟨none, a, .none, rfl, (Option.some.inj h).symm, by simp⟩
    · cases h
  · next a b =>
    split at h
    · next hc =>
      rw [Bool.and_eq_true] at hc
      exact ⟨some a, b, .none, rfl, (Option.some.inj h).symm, by simpa using hc.1⟩
    · split at h
      · exact ⟨none, a, .one b, rfl, (Option.some.inj h).symm, by simp⟩
      · cases h
  · next a b c =>
    split at h
    · next hc =>
      rw [Bool.and_eq_true] at hc
      exact ⟨some a, b, .one c, rfl, (Option.some.inj h).symm, by simpa using hc.1⟩
    · split at h
      · exact ⟨none, a, .two b c, rfl, (Option.some.inj h).symm, by simp⟩
      · cases h
  · next a b c d =>
    split at h
    · next hc =>
      rw [Bool.and_eq_true] at hc
      exact ⟨some a, b, .two c d, rfl, (Option.some.inj h).symm, by simpa using hc.1⟩
    · cases h
  · cases h

/-- The operands of a statement are tokens of its line. -/
theorem mem_of_mem_operands (h : g.statement? tokens = some s) {operand : String}
    (ho : operand ∈ s.operands.toList) : operand ∈ tokens := by
  obtain ⟨label, mnemonic, operands, rfl, rfl, -⟩ := exists_written h
  exact List.mem_append_right _ (List.mem_cons_of_mem mnemonic ho)

/-- The label of a statement is the first token of its line in upper case. -/
theorem exists_isLabel (h : g.statement? tokens = some s) {name : String}
    (hl : s.label = some name) :
    ∃ token rest, tokens = token :: rest ∧ g.isLabel token = true ∧
      name = Text.uppercase token := by
  obtain ⟨label, mnemonic, operands, rfl, rfl, hlabel⟩ := exists_written h
  obtain ⟨token, rfl, rfl⟩ := Option.map_eq_some_iff.mp hl
  exact ⟨token, _, rfl, hlabel token rfl, rfl⟩

end Grammar

namespace Listing

/-! ### Reading a line back -/

/-- The number that a field of hexadecimal digits denotes. -/
def field? (token : String) : Option Nat := Text.readDigits? 16 Text.hexDigit? token.toList

/-- The byte that a field of hexadecimal digits denotes. -/
def byteField? (token : String) : Option UInt8 := (field? token).map UInt8.ofNat

/-- The operand that tokens after a code byte stand for; its addressing mode tells a label from a
number, and the width of a number a byte from an address. -/
def Operand.ofTokens? (code : UInt8) : List String → Option Operand
  | [] => some none
  | [a] =>
    if code.toNat % 4 = 1 then some (symbol a)
    else if a.toList.length = 2 then (byteField? a).map byte
    else (field? a).map address
  | [a, b] => some (registers a b)
  | _ => .none

/-- The content of a storage directive with its operand; only a literal has quotes. -/
def Content.ofStorage? (kind : Storage) (operand : String) : Option Content :=
  match kind with
  | .word => (field? operand).map word
  | .byte =>
    if '"' ∈ operand.toList then some (literal operand) else (byteField? operand).map byte
  | .reserveWords => (byteField? operand).map reserveWords
  | .reserveBytes => (byteField? operand).map reserveBytes

/-- The content of a directive with an operand or of a code byte with its operands. -/
def Content.ofTokens? : List String → Option Content
  | [] => none
  | mnemonic :: operands =>
    match Directive.ofToken? mnemonic with
    | some (.storage kind) => operands.head?.bind (ofStorage? kind)
    | some _ => none
    | none =>
      (byteField? mnemonic).bind fun code ↦
        (Operand.ofTokens? code operands).map (instruction code)

/-- The line that a token list stands for. -/
def Line.ofTokens? : List String → Option Line
  | [] => none
  | slot :: rest =>
    if rest.head? = some Directive.start.name then
      (rest.getLast?.bind field?).map (start slot)
    else (field? slot).bind fun address ↦ (Content.ofTokens? rest).map (body address)

/-- A line whose content some statement has. -/
def Line.WellFormed : Line → Prop
  | start label _ => IsIdentifier label
  | body _ content => content.WellFormed

@[simp] private theorem field?_hex (width n : Nat) : field? (Text.hex width n) = some n :=
  Text.readDigits?_hex width n

@[simp] private theorem byteField?_hex (width : Nat) (b : UInt8) :
    byteField? (Text.hex width b.toNat) = some b := by
  simp [byteField?]

/-- An operand is recovered from its tokens. -/
theorem Operand.ofTokens?_tokens {code : UInt8} {operand : Operand}
    (h : operand.WellFormed code) : ofTokens? code operand.tokens = some operand := by
  cases operand with
  | none => rfl
  | registers first second => rfl
  | byte value =>
    have hm : code.toNat % 4 = 0 := h
    simp [tokens, ofTokens?, hm, Text.length_hex_byte]
  | address value =>
    have hm : code.toNat % 4 = 0 := h.1
    have hw : (Text.hex 6 value).toList.length ≠ 2 := by
      have := Text.le_length_hex 6 value
      omega
    simp [tokens, ofTokens?, hm, hw]
  | symbol name =>
    have hm : code.toNat % 4 = 1 := h.1
    simp [tokens, ofTokens?, hm]

private theorem ofToken?_storage (kind : Storage) :
    Directive.ofToken? kind.name = some (.storage kind) := by
  cases kind <;> decide

/-- The contents of a literal stand between quotes. -/
theorem quote_mem_of_wellFormed {token : String} (h : (Content.literal token).WellFormed) :
    '"' ∈ token.toList := by
  have of_contents : ∀ mark cs, Literal.contents? mark token = some cs → '"' ∈ token.toList := by
    intro mark cs hc
    obtain ⟨letter, -, he⟩ := Literal.toList_eq_of_contents? hc
    simp [he]
  rcases h with ⟨cs, hc⟩ | ⟨ds, hd, -⟩
  · exact of_contents 'C' cs (Literal.characters?_eq_some_iff.mp hc).1
  · exact of_contents 'X' ds (Literal.digits?_eq_some_iff.mp hd).1

/-- A content is recovered from its tokens. -/
theorem Content.ofTokens?_tokens {c : Content} (h : c.WellFormed) :
    ofTokens? c.tokens = some c := by
  cases c with
  | word value => simp [tokens, ofTokens?, ofToken?_storage, ofStorage?]
  | byte value =>
    have hq : '"' ∉ (Text.hex 2 value.toNat).toList := Text.not_mem_hex (by decide) _ _
    simp [tokens, ofTokens?, ofToken?_storage, ofStorage?, hq]
  | literal token =>
    have hq := quote_mem_of_wellFormed h
    simp [tokens, ofTokens?, ofToken?_storage, ofStorage?, hq]
  | reserveWords count => simp [tokens, ofTokens?, ofToken?_storage, ofStorage?]
  | reserveBytes count => simp [tokens, ofTokens?, ofToken?_storage, ofStorage?]
  | instruction code operand =>
    simp [tokens, ofTokens?, Directive.ofToken?_hex, Operand.ofTokens?_tokens h]

/-- No content begins like the opening line of a listing. -/
theorem head?_tokens_ne_start (c : Content) :
    c.tokens.head? ≠ some Directive.start.name := by
  cases c with
  | instruction code operand =>
    intro h
    have hs : Directive.ofToken? Directive.start.name = some .start := by decide
    have hh : Text.hex 2 code.toNat = Directive.start.name := Option.some.inj h
    rw [← hh, Directive.ofToken?_hex] at hs
    cases hs
  | _ => simp only [Content.tokens, List.head?_cons]; decide

/-- A line is recovered from its tokens. -/
theorem Line.ofTokens?_tokens {line : Line} (h : line.WellFormed) :
    ofTokens? line.tokens = some line := by
  cases line with
  | start label address => simp [tokens, ofTokens?]
  | body address content =>
    have hs := head?_tokens_ne_start content
    simp [tokens, ofTokens?, hs, Content.ofTokens?_tokens h]

/-! ### Lines consist of words -/

/-- A literal of a content stands as one word in its line. -/
def Content.IsWritable : Content → Prop
  | literal token => Token.IsWord token
  | _ => True

private theorem Operand.isWord_tokens {code : UInt8} {operand : Operand}
    (h : operand.WellFormed code) : ∀ token ∈ operand.tokens, Token.IsWord token := by
  cases operand with
  | none => simp [tokens]
  | registers first second =>
    have h1 := (Register.isIdentifier_of_isName h.2.1).isWord
    have h2 := (Register.isIdentifier_of_isName h.2.2).isWord
    simpa [tokens] using ⟨h1, h2⟩
  | byte value => simpa [tokens] using Token.isWord_hex 2 value.toNat
  | address value => simpa [tokens] using Token.isWord_hex 6 value
  | symbol name => simpa [tokens] using h.2.isWord

private theorem Content.isWord_tokens {c : Content} (h : c.WellFormed) (hw : c.IsWritable) :
    ∀ token ∈ c.tokens, Token.IsWord token := by
  have name (kind : Storage) : Token.IsWord kind.name :=
    (Directive.storage kind).isIdentifier_name.isWord
  cases c with
  | word value => simpa [tokens] using ⟨name .word, Token.isWord_hex 6 value⟩
  | byte value => simpa [tokens] using ⟨name .byte, Token.isWord_hex 2 value.toNat⟩
  | literal token => simpa [tokens] using ⟨name .byte, hw⟩
  | reserveWords count =>
    simpa [tokens] using ⟨name .reserveWords, Token.isWord_hex 2 count.toNat⟩
  | reserveBytes count =>
    simpa [tokens] using ⟨name .reserveBytes, Token.isWord_hex 2 count.toNat⟩
  | instruction code operand =>
    intro token ht
    rcases List.mem_cons.mp ht with rfl | ht
    · exact Token.isWord_hex 2 code.toNat
    · exact Operand.isWord_tokens h token ht

/-- The tokens of an opening line form a line. -/
theorem isLine_start {label : String} (h : IsIdentifier label) (address : Nat) :
    Token.IsLine (Line.start label address).tokens := by
  apply Token.isLine_of_isWord (by simp [Line.tokens])
  simpa [Line.tokens] using
    ⟨h.isWord, Directive.start.isIdentifier_name.isWord, Token.isWord_hex 6 address⟩

/-- The tokens of a line with content form a line. -/
theorem isLine_body {c : Content} (h : c.WellFormed) (hw : c.IsWritable) (address : Nat) :
    Token.IsLine (Line.body address c).tokens := by
  apply Token.isLine_of_isWord (by simp [Line.tokens])
  intro token ht
  rcases List.mem_cons.mp ht with rfl | ht
  · exact Token.isWord_hex 6 address
  · exact Content.isWord_tokens h hw token ht

/-- The text of lines whose tokens form lines has exactly those tokens. -/
theorem ofText_render {lines : List Line} (h : ∀ line ∈ lines, Token.IsLine line.tokens) :
    Token.ofText (render lines) = lines.map Line.tokens := by
  have hr : render lines = Text.joinLines ((lines.map Line.tokens).map Token.join) := by
    rw [render, List.map_map]
    rfl
  rw [hr]
  apply Token.ofText_joinLines
  intro tokens ht
  obtain ⟨line, hl, rfl⟩ := List.mem_map.mp ht
  exact h line hl

end Listing

/-! ### Listings of programs -/

namespace Placement

open Listing (Content)

/-- On a line of a text, a literal content is a word: its contents hold no quote, since the token
would have ended there. -/
theorem isWritable_of_content {g : Grammar} {tokens : List String} {s : Statement} {c : Content}
    (ht : Token.IsLine tokens) (hs : g.statement? tokens = some s) (hc : content g s = .ok c) :
    c.IsWritable := by
  cases c with
  | literal token =>
    obtain ⟨operand, ho, ⟨cs, hcs, rfl⟩ | ⟨ds, hds, rfl⟩⟩ := content_eq_literal hc
    · have hm := Grammar.mem_of_mem_operands hs ho
      obtain ⟨hcont, -, -⟩ := Literal.characters?_eq_some_iff.mp hcs
      have hq := Literal.quote_not_mem_of_spaced (Or.inl rfl) hcont ht.spaced
        (List.mem_map_of_mem hm)
      exact Or.inl ⟨Literal.isLiteral_of_contents? (Or.inl rfl) hcont hq, ht.oneLine token hm⟩
    · obtain ⟨hcont, -, hx⟩ :=
        Literal.digits?_eq_some_iff.mp (Literal.digits?_uppercase hds)
      have hq : ∀ c, Text.isHexDigit c = false → c ∉ ds.map Char.toUpper := by
        intro c hf hmem
        rw [hx c hmem] at hf
        cases hf
      refine Or.inl ⟨Literal.isLiteral_of_contents? (Or.inr rfl) hcont (hq '"' (by decide)), ?_⟩
      obtain ⟨letter, hl, he⟩ := Literal.toList_eq_of_contents? hcont
      have hn : letter ≠ '\n' := by
        rintro rfl
        exact absurd hl (by decide)
      rw [he]
      simp only [List.mem_cons, List.mem_append, List.not_mem_nil, or_false, not_or]
      exact ⟨hn.symm, by decide, hq '\n' (by decide), by decide⟩
  | _ => trivial

end Placement

namespace Grammar

variable {g : Grammar} {limit : Nat} {source : List (List String)}

/-- The item at a position of a body comes from the token line at that position. -/
theorem Body.exists_isItem {items : List Item} {last : Option String} {entry : Option Nat}
    (h : g.Body limit source items last entry) {m : Nat} {item : Item}
    (hm : items[m]? = some item) : ∃ tokens, source[m]? = some tokens ∧ g.IsItem tokens item := by
  induction h generalizing m with
  | close _ => simp at hm
  | @item tokens rest first items label entry hi _ ih =>
    cases m with
    | zero =>
      obtain rfl := Option.some.inj hm
      exact ⟨tokens, rfl, hi⟩
    | succ m => exact ih hm

/-- Every item of a body comes from one of its token lines. -/
theorem Body.exists_isItem_of_mem {items : List Item} {last : Option String} {entry : Option Nat}
    (h : g.Body limit source items last entry) {item : Item} (hm : item ∈ items) :
    ∃ tokens ∈ source, g.IsItem tokens item := by
  obtain ⟨m, hm⟩ := List.mem_iff_getElem?.mp hm
  obtain ⟨tokens, ht, hi⟩ := h.exists_isItem hm
  exact ⟨tokens, List.mem_of_getElem? ht, hi⟩

/-- The name of a program is an identifier. -/
theorem Reads.isIdentifier_name {p : Program} (h : g.Reads limit source p) :
    IsIdentifier p.name := by
  obtain ⟨first, rest, -, ⟨s, operand, hs, -, hl, -, -⟩, -⟩ := h
  obtain ⟨token, _, -, hlabel, he⟩ := exists_isLabel hs hl
  rw [he]
  exact (isIdentifier_of_isLabel hlabel).uppercase

end Grammar

namespace Program

open Listing (Line)

/-- The line at a position carries the content of the item at that position. -/
theorem exists_item_of_linesFrom {address m : Nat} {items : List Item} {line : Line}
    (h : (linesFrom address items)[m]? = some line) :
    ∃ a item, items[m]? = some item ∧ line = .body a item.content := by
  induction items generalizing address m with
  | nil => simp [linesFrom] at h
  | cons item rest ih =>
    cases m with
    | zero =>
      obtain rfl := Option.some.inj h
      exact ⟨address, item, rfl, rfl⟩
    | succ m => exact ih h

/-- The lines of items carry their contents. -/
theorem exists_item_of_mem_linesFrom {address : Nat} {items : List Item} {line : Line}
    (h : line ∈ linesFrom address items) : ∃ a, ∃ item ∈ items, line = .body a item.content := by
  obtain ⟨m, hm⟩ := List.mem_iff_getElem?.mp h
  obtain ⟨a, item, hi, rfl⟩ := exists_item_of_linesFrom hm
  exact ⟨a, item, List.mem_of_getElem? hi, rfl⟩

variable {g : Grammar} {limit : Nat} {source : List (List String)} {p : Program}

/-- The items of a program are well formed. -/
theorem wellFormed_of_mem_items (h : g.Reads limit source p) :
    ∀ item ∈ p.items, item.content.WellFormed := by
  obtain ⟨first, rest, -, -, hbody⟩ := h
  intro item hm
  obtain ⟨tokens, -, s, -, -, hc⟩ := hbody.exists_isItem_of_mem hm
  exact Placement.content_wellFormed hc

/-- The lines of a program are well formed. -/
theorem wellFormed_of_mem_listing (h : g.Reads limit source p) {line : Line}
    (hm : line ∈ p.listing) : line.WellFormed := by
  rcases List.mem_cons.mp hm with rfl | hm
  · exact h.isIdentifier_name
  · obtain ⟨a, item, hi, rfl⟩ := exists_item_of_mem_linesFrom hm
    exact wellFormed_of_mem_items h item hi

/-- The lines of a program whose body was read from a text form lines of a text again. -/
theorem isLine_of_mem_listing (h : g.Reads limit source p)
    (ht : ∀ tokens ∈ source.tail, Token.IsLine tokens) {line : Line} (hm : line ∈ p.listing) :
    Token.IsLine line.tokens := by
  rcases List.mem_cons.mp hm with rfl | hm
  · exact Listing.isLine_start h.isIdentifier_name p.start
  · obtain ⟨first, rest, rfl, -, hbody⟩ := h
    obtain ⟨a, item, hi, rfl⟩ := exists_item_of_mem_linesFrom hm
    obtain ⟨tokens, htk, s, hs, -, hc⟩ := hbody.exists_isItem_of_mem hi
    exact Listing.isLine_body (Placement.content_wellFormed hc)
      (Placement.isWritable_of_content (ht tokens htk) hs hc) a

/-- The listing text of a program whose body was read from a text has the tokens of its lines. -/
theorem ofText_render_listing_of_tail (h : g.Reads limit source p)
    (ht : ∀ tokens ∈ source.tail, Token.IsLine tokens) :
    Token.ofText (Listing.render p.listing) = p.listing.map Line.tokens :=
  Listing.ofText_render fun _ hm ↦ isLine_of_mem_listing h ht hm

/-- The listing text of a program that was read from a text has the tokens of its lines. -/
theorem ofText_render_listing {text : String} (h : g.Reads limit (Token.ofText text) p) :
    Token.ofText (Listing.render p.listing) = p.listing.map Line.tokens :=
  ofText_render_listing_of_tail h fun _ ht ↦
    Token.isLine_of_mem_ofText (List.mem_of_mem_tail ht)

end Program

namespace Listing

/-- Well-formed lines with the same tokens are the same lines. -/
theorem eq_of_map_tokens_eq {lines others : List Line} (h : ∀ line ∈ lines, line.WellFormed)
    (ho : ∀ line ∈ others, line.WellFormed)
    (he : lines.map Line.tokens = others.map Line.tokens) : lines = others := by
  have read : ∀ ls : List Line, (∀ line ∈ ls, line.WellFormed) →
      (ls.map Line.tokens).map Line.ofTokens? = ls.map some := by
    intro ls hls
    rw [List.map_map]
    exact List.map_congr_left fun line hm ↦ Line.ofTokens?_tokens (hls line hm)
  have hmap := congrArg (List.map Line.ofTokens?) he
  rw [read lines h, read others ho] at hmap
  exact (List.map_inj_right fun _ _ ↦ Option.some.inj).mp hmap

/-- The listing text of a placed source holds one token list for each line: the slot, then the
directive or code byte, then the operands, a literal being one token. Two placed sources with the
same listing text have the same lines. -/
theorem listing_text_lossless {options : Options} {table : OpTable} {known : SymbolTable}
    {text : String} {placed : Placement.Placed}
    (h : (Placement.run options table known (Token.ofText text)).1 = .ok placed) :
    Token.ofText (render placed.lines) = placed.lines.map Line.tokens ∧
      ∀ (options' : Options) (table' : OpTable) (known' : SymbolTable) (text' : String)
        (placed' : Placement.Placed),
        (Placement.run options' table' known' (Token.ofText text')).1 = .ok placed' →
        render placed'.lines = render placed.lines → placed'.lines = placed.lines := by
  obtain ⟨p, hp, -, -, -, rfl, -⟩ := Placement.run_eq_ok_iff.mp (Prod.ext h rfl)
  have tokens := Program.ofText_render_listing hp
  refine ⟨tokens, ?_⟩
  intro options' table' known' text' placed' h' hr
  obtain ⟨q, hq, -, -, -, rfl, -⟩ := Placement.run_eq_ok_iff.mp (Prod.ext h' rfl)
  apply eq_of_map_tokens_eq
  · exact fun line hm ↦ Program.wellFormed_of_mem_listing hq hm
  · exact fun line hm ↦ Program.wellFormed_of_mem_listing hp hm
  · rw [← Program.ofText_render_listing hq, hr, tokens]

/-- The sample text, whose literal has a space, a tab and a carriage return, is placed, and its
listing text holds the tokens of its lines. -/
theorem listing_text_lossless_sample :
    (Placement.run {} .standard .empty (Token.ofText Program.sampleText)).1 =
        .ok ⟨Program.sample.listing, Program.sample.layout⟩ ∧
      Token.ofText (render Program.sample.listing) = Program.sample.listing.map Line.tokens := by
  have hrun := congrArg Prod.fst Program.sample_run
  exact ⟨hrun, (listing_text_lossless hrun).1⟩

end Listing

end SicXe
