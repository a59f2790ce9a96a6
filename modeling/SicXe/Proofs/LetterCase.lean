import SicXe.Proofs.Assembling
import SicXe.Proofs.FailFast

/-!
# Letter case in sources

Mnemonics and labels may be written in any case. Three things make this hold: names are looked up
without regard to the case of ASCII letters, labels and mnemonics are kept in upper case, and what
can be a label has the spelling of an identifier, so it is no number, no literal and, in any case,
no register. Putting the mnemonics and labels of a source in upper case therefore changes nothing
but the label operands of the listing and the lines that errors show; and since label operands are
looked up as well, the object program stays the same.
-/

namespace SicXe

/-! ### Upper case of ASCII letters -/

namespace Text

/-- A character outside ASCII is not changed. -/
theorem toUpper_of_isAscii_eq_false {c : Char} (h : isAscii c = false) : c.toUpper = c := by
  unfold Char.toUpper
  split
  · next hl =>
    have hz : c.toNat ≤ 122 := UInt32.le_iff_toNat_le.mp hl.2
    have hc : ¬ c.toNat < 128 := by simpa [isAscii] using h
    omega
  · rfl

/-- What a function gives on a character and on its upper case is the same if it is so for the
characters of ASCII. -/
theorem apply_toUpper {α : Type} {f : Char → α}
    (h : ∀ c, isAscii c = true → f c.toUpper = f c) (c : Char) : f c.toUpper = f c := by
  cases ha : isAscii c with
  | true => exact h c ha
  | false => rw [toUpper_of_isAscii_eq_false ha]

/-- A name in upper case is its own key. -/
@[simp] theorem nameKey_nameKey (s : String) : nameKey (nameKey s) = nameKey s := by
  apply String.toList_inj.mp
  simp only [toList_nameKey, List.map_map]
  apply List.map_congr_left
  intro c _
  exact apply_toUpper (fun d hd ↦ toUpper_toUpper hd) c

/-- Names are compared without regard to case. -/
@[simp] theorem sameName_nameKey (a b : String) : sameName (nameKey a) b = sameName a b := by
  simp only [sameName, nameKey_nameKey]

/-- The full upper-case form of a text does not depend on the case of its ASCII letters. -/
@[simp] theorem uppercase_nameKey (s : String) : uppercase (nameKey s) = uppercase s := by
  apply String.toList_inj.mp
  rw [toList_uppercase, toList_uppercase, toList_nameKey, List.flatMap_map]
  congr 1
  funext c
  apply apply_toUpper
  intro d hd
  rw [upper_of_isAscii hd, upper_of_isAscii (isAscii_toUpper hd), toUpper_toUpper hd]

end Text

namespace SymbolTable

/-- Looking up ignores the case of the name. -/
@[simp] theorem find?_nameKey (table : SymbolTable) (name : String) :
    table.find? (Text.nameKey name) = table.find? name := by
  simp only [find?, Text.nameKey_nameKey]

end SymbolTable

/-! ### Tokens -/

/-- An identifier in upper case is an identifier. -/
theorem IsIdentifier.nameKey {name : String} (h : IsIdentifier name) :
    IsIdentifier (Text.nameKey name) := by
  rw [← Text.uppercase_of_ascii h.isAscii]
  exact h.uppercase

/-- An identifier is no decimal number, since it begins with a letter. -/
theorem IsIdentifier.readDecimal? {name : String} (h : IsIdentifier name) :
    Text.readDecimal? name = none := by
  obtain ⟨c, cs, he, hc, -⟩ := h
  have hd : Text.decimalDigit? c = none := by
    have ha := isAscii_of_isNameCharacter (isNameCharacter_of_isAlpha hc)
    exact Text.forall_isAscii (p := fun c ↦ c.isAlpha = true → Text.decimalDigit? c = none)
      (by decide) ha hc
  unfold Text.readDecimal?
  rw [he]
  split
  · next heq =>
    obtain ⟨rfl, -⟩ := List.cons.inj heq
    cases hc
  · next heq =>
    obtain ⟨rfl, -⟩ := List.cons.inj heq
    cases hc
  · simp [Text.readDigits?, Text.readDigitsFrom?, hd]

private theorem IsIdentifier.contents? {name : String} (h : IsIdentifier name) (mark : Char) :
    Literal.contents? mark name = none := by
  cases hc : Literal.contents? mark name with
  | none => rfl
  | some cs =>
    obtain ⟨letter, -, he⟩ := Literal.toList_eq_of_contents? hc
    have hq := h.quote_not_mem
    simp [he] at hq

/-- An identifier is no literal, since it holds no quote. -/
theorem IsIdentifier.not_literal {name : String} (h : IsIdentifier name) :
    Literal.characters? name = none ∧ Literal.digits? name = none := by
  simp [Literal.characters?, Literal.digits?, h.contents?]

/-- A register is in upper case. -/
theorem Register.nameKey_of_isName {token : String} (h : Register.isName token = true) :
    Text.nameKey token = token := by
  have ha := (Register.isIdentifier_of_isName h).isAscii
  have digit : ∀ c ∈ token.toList, '0' ≤ c → c ≤ '9' → c.toUpper = c := fun c hc ↦
    Text.forall_isAscii (p := fun c ↦ '0' ≤ c → c ≤ '9' → c.toUpper = c) (by decide) (ha c hc)
  have letter : 'R'.toUpper = 'R' := by decide
  apply String.toList_inj.mp
  rw [Text.toList_nameKey]
  unfold Register.isName Register.number? at h
  split at h
  · next c heq =>
    split at h
    · next hc =>
      have hd := digit c (by simp [heq]) (Char.le_trans (by decide) hc.1) hc.2
      simp [heq, letter, hd]
    · simp at h
  · next c heq =>
    split at h
    · next hc =>
      have hd := digit c (by simp [heq]) hc.1 (Char.le_trans hc.2 (by decide))
      have h1 := digit '1' (by simp [heq]) (by decide) (by decide)
      simp [heq, letter, h1, hd]
    · simp at h
  · simp at h

/-- A directive may be written in any case. -/
@[simp] theorem Directive.ofToken?_nameKey (token : String) :
    ofToken? (Text.nameKey token) = ofToken? token := by
  simp only [ofToken?, Text.uppercase_nameKey]

namespace Grammar

variable (g : Grammar)

/-- An instruction may be written in any case. -/
@[simp] theorem isInstruction_nameKey (token : String) :
    g.isInstruction (Text.nameKey token) = g.isInstruction token := by
  simp only [isInstruction, OpTable.contains, OpTable.find?, Text.sameName, Text.nameKey_nameKey]

/-- A mnemonic may be written in any case. -/
@[simp] theorem isMnemonic_nameKey (token : String) :
    g.isMnemonic (Text.nameKey token) = g.isMnemonic token := by
  simp only [isMnemonic, isInstruction_nameKey, Directive.isName, Directive.ofToken?_nameKey]

/-- A mnemonic that can stand alone may be written in any case. -/
@[simp] theorem standsAlone_nameKey (token : String) :
    g.standsAlone (Text.nameKey token) = g.standsAlone token := by
  simp only [standsAlone, isInstruction_nameKey, Directive.ofToken?_nameKey]

/-- A label may be written in any case. -/
@[simp] theorem isLabel_nameKey (token : String) :
    g.isLabel (Text.nameKey token) = g.isLabel token := by
  have alpha : ∀ c : Char, c.toUpper.isAlpha = c.isAlpha := Text.apply_toUpper
    fun c hc ↦ Text.forall_isAscii (p := fun c ↦ c.toUpper.isAlpha = c.isAlpha) (by decide) hc
  have name : ∀ c : Char, (c.toUpper.isAlphanum || c.toUpper == '_') = (c.isAlphanum || c == '_') :=
    Text.apply_toUpper (f := isNameCharacter) fun c hc ↦
      Text.forall_isAscii (p := fun c ↦ isNameCharacter c.toUpper = isNameCharacter c)
        (by decide) hc
  unfold isLabel
  rw [Text.uppercase_nameKey, g.isMnemonic_nameKey, Text.toList_nameKey]
  cases token.toList with
  | nil => rfl
  | cons c cs => simp [alpha, name, Function.comp_def]

variable {g}

/-- A label is no register. -/
theorem isName_eq_false_of_isLabel {token : String} (h : g.isLabel token = true) :
    Register.isName token = false := by
  cases hr : Register.isName token with
  | false => rfl
  | true =>
    have hu := Text.uppercase_of_ascii (isIdentifier_of_isLabel h).isAscii
    unfold isLabel at h
    split at h
    · cases h
    · simp [hu, Register.nameKey_of_isName hr, hr] at h

/-- A mnemonic is no label. -/
theorem isLabel_eq_false_of_isMnemonic {token : String} (h : g.isMnemonic token = true) :
    g.isLabel token = false := by
  cases hl : g.isLabel token with
  | false => rfl
  | true =>
    rw [isMnemonic_eq_false_of_isLabel hl] at h
    cases h

/-! ### Token lines in upper case -/

variable (g)

/-- A token, in upper case if it can be a label. -/
def capitalizeToken (token : String) : String :=
  if g.isLabel token then Text.nameKey token else token

/-- The position of the mnemonic in a token line that has a statement. -/
def mnemonicAt? (tokens : List String) : Option Nat :=
  (g.statement? tokens).map fun s ↦ s.label.toList.length

/-- A token line with its mnemonic and every token that can be a label in upper case. -/
def capitalize (tokens : List String) : List String :=
  tokens.mapIdx fun i token ↦
    if g.mnemonicAt? tokens = some i then Text.nameKey token else g.capitalizeToken token

end Grammar

/-- A function applied to each operand. -/
def Operands.map (f : String → String) : Operands → Operands
  | none => none
  | one first => one (f first)
  | two first second => two (f first) (f second)

/-- A function applied to each operand of a statement. -/
def Statement.mapOperands (f : String → String) (s : Statement) : Statement :=
  { s with operands := s.operands.map f }

namespace Grammar

variable (g : Grammar)

/-- What does not depend on the case of a token is the same for the capitalized token. -/
theorem apply_capitalizeToken {α : Type} {f : String → α}
    (h : ∀ token, g.isLabel token = true → f (Text.nameKey token) = f token) (token : String) :
    f (g.capitalizeToken token) = f token := by
  unfold capitalizeToken
  split
  · next hl => exact h token hl
  · rfl

@[simp] private theorem isLabel_capitalizeToken (token : String) :
    g.isLabel (g.capitalizeToken token) = g.isLabel token :=
  g.apply_capitalizeToken (fun t _ ↦ g.isLabel_nameKey t) token

@[simp] private theorem isInstruction_capitalizeToken (token : String) :
    g.isInstruction (g.capitalizeToken token) = g.isInstruction token :=
  g.apply_capitalizeToken (fun t _ ↦ g.isInstruction_nameKey t) token

@[simp] private theorem isMnemonic_capitalizeToken (token : String) :
    g.isMnemonic (g.capitalizeToken token) = g.isMnemonic token :=
  g.apply_capitalizeToken (fun t _ ↦ g.isMnemonic_nameKey t) token

@[simp] private theorem standsAlone_capitalizeToken (token : String) :
    g.standsAlone (g.capitalizeToken token) = g.standsAlone token :=
  g.apply_capitalizeToken (fun t _ ↦ g.standsAlone_nameKey t) token

@[simp] private theorem sameName_capitalizeToken (token other : String) :
    Text.sameName (g.capitalizeToken token) other = Text.sameName token other :=
  g.apply_capitalizeToken (f := fun t ↦ Text.sameName t other)
    (fun t _ ↦ Text.sameName_nameKey t other) token

@[simp] private theorem uppercase_capitalizeToken (token : String) :
    Text.uppercase (g.capitalizeToken token) = Text.uppercase token :=
  g.apply_capitalizeToken (fun t _ ↦ Text.uppercase_nameKey t) token

/-- A capitalized line has the statement of the line, with its operands capitalized. -/
theorem statement?_capitalize (tokens : List String) :
    g.statement? (g.capitalize tokens) =
      (g.statement? tokens).map (Statement.mapOperands g.capitalizeToken) := by
  -- Each condition of the grammar has the same value on both lines.
  match tokens with
  | [] => rfl
  | [a] =>
    by_cases h : (g.isInstruction a || Text.sameName a "END") = true
    · simp [capitalize, mnemonicAt?, statement?, h, Statement.ofWritten, Statement.mapOperands,
        Operands.map]
    · simp [capitalize, mnemonicAt?, statement?, h]
  | [a, b] =>
    by_cases h : (g.isLabel a && g.standsAlone b) = true
    · simp [capitalize, mnemonicAt?, statement?, h, Statement.ofWritten, Statement.mapOperands,
        Operands.map]
    · by_cases hm : g.isMnemonic a = true
      · simp [capitalize, mnemonicAt?, statement?, h, hm, Statement.ofWritten,
          Statement.mapOperands, Operands.map]
      · simp [capitalize, mnemonicAt?, statement?, h, hm]
  | [a, b, c] =>
    by_cases h : (g.isLabel a && g.isMnemonic b) = true
    · simp [capitalize, mnemonicAt?, statement?, h, Statement.ofWritten, Statement.mapOperands,
        Operands.map]
    · by_cases hm : g.isInstruction a = true
      · simp [capitalize, mnemonicAt?, statement?, h, hm, Statement.ofWritten,
          Statement.mapOperands, Operands.map]
      · simp [capitalize, mnemonicAt?, statement?, h, hm]
  | [a, b, c, d] =>
    by_cases h : (g.isLabel a && g.isInstruction b) = true
    · simp [capitalize, mnemonicAt?, statement?, h, Statement.ofWritten, Statement.mapOperands,
        Operands.map]
    · simp [capitalize, mnemonicAt?, statement?, h]
  | a :: b :: c :: d :: e :: rest => simp [capitalize, statement?]

end Grammar

/-! ### Listings apart from the case of label operands -/

namespace Listing

/-- An operand with its label in upper case. -/
def Operand.foldCase : Operand → Operand
  | symbol name => symbol (Text.nameKey name)
  | operand => operand

/-- A content with its label operand in upper case. -/
def Content.foldCase : Content → Content
  | instruction code operand => instruction code operand.foldCase
  | content => content

/-- A line with its label operand in upper case. -/
def Line.foldCase : Line → Line
  | start label address => start label address
  | body address content => body address content.foldCase

/-- The case of a label does not change the size of a content. -/
@[simp] theorem Content.size_foldCase (c : Content) : c.foldCase.size = c.size := by
  cases c with
  | instruction code operand => cases operand <;> rfl
  | _ => rfl

/-- The case of a label does not change the record of a line. -/
@[simp] theorem Line.record?_foldCase (symbols : SymbolTable) (line : Line) :
    line.foldCase.record? symbols = line.record? symbols := by
  cases line with
  | start label address => rfl
  | body address content =>
    cases content with
    | instruction code operand =>
      cases operand with
      | symbol name =>
        simp only [foldCase, Content.foldCase, Operand.foldCase, record?, Content.record?,
          Operand.text?, SymbolTable.find?_nameKey]
      | _ => rfl
    | _ => rfl

end Listing

/-! ### Placing a capitalized source -/

namespace Placement

open Listing (Content Line Operand)

variable {g : Grammar} {limit : Nat}

@[simp] private theorem readDecimal?_capitalizeToken (g : Grammar) (token : String) :
    Text.readDecimal? (g.capitalizeToken token) = Text.readDecimal? token := by
  apply g.apply_capitalizeToken
  intro t hl
  have ht := Grammar.isIdentifier_of_isLabel hl
  rw [ht.readDecimal?, ht.nameKey.readDecimal?]

@[simp] private theorem isName_capitalizeToken (g : Grammar) (token : String) :
    Register.isName (g.capitalizeToken token) = Register.isName token := by
  apply g.apply_capitalizeToken
  intro t hl
  rw [Grammar.isName_eq_false_of_isLabel hl,
    Grammar.isName_eq_false_of_isLabel (g := g) (by rw [g.isLabel_nameKey, hl])]

private theorem capitalizeToken_of_isName {token : String} (h : Register.isName token = true) :
    g.capitalizeToken token = token := by
  unfold Grammar.capitalizeToken
  split
  · next hl =>
    rw [Grammar.isName_eq_false_of_isLabel hl] at h
    cases h
  · rfl

private theorem byteContent_capitalizeToken (g : Grammar) (token : String) :
    byteContent (g.capitalizeToken token) = byteContent token := by
  apply g.apply_capitalizeToken
  intro t hl
  have ht := Grammar.isIdentifier_of_isLabel hl
  simp [byteContent, ht.readDecimal?, ht.nameKey.readDecimal?, ht.not_literal,
    ht.nameKey.not_literal]

/-- A storage directive does not depend on the case of a label, which it refuses in any case. -/
theorem storageContent_capitalizeToken (g : Grammar) (kind : Storage) (token : String) :
    storageContent kind (g.capitalizeToken token) = storageContent kind token := by
  cases kind with
  | byte => exact byteContent_capitalizeToken g token
  | _ => simp only [storageContent, number, readDecimal?_capitalizeToken]

/-- An instruction with an address operand depends on the case of a label only by the label. -/
theorem addressContent_capitalizeToken (code : UInt8) (token : String) :
    (addressContent g code (g.capitalizeToken token)).map Content.foldCase =
      (addressContent g code token).map Content.foldCase := by
  unfold Grammar.capitalizeToken
  split
  · next hl =>
    simp [addressContent, hl, Except.map, Content.foldCase, Operand.foldCase]
  · rfl

/-- An instruction depends on the case of its operands only by a label operand. -/
theorem instructionContent_capitalize (d : Definition) (operands : Operands) :
    (instructionContent g d (operands.map g.capitalizeToken)).map Content.foldCase =
      (instructionContent g d operands).map Content.foldCase := by
  cases hw : d.width with
  | one => cases operands <;> simp [instructionContent, hw, Operands.map]
  | two =>
    cases operands with
    | none => rfl
    | one a => simp [instructionContent, hw, Operands.map, number]
    | two a b =>
      by_cases hr : (Register.isName a && Register.isName b) = true
      · obtain ⟨ha, hb⟩ := Bool.and_eq_true_iff.mp hr
        rw [Operands.map, capitalizeToken_of_isName ha, capitalizeToken_of_isName hb]
      · simp [instructionContent, hw, Operands.map, hr]
  | four =>
    cases operands with
    | one a =>
      simp only [instructionContent, hw, Operands.map, Operands.single, Except.bind]
      exact addressContent_capitalizeToken d.codeByte a
    | _ => simp [instructionContent, hw, Operands.map, Operands.single]

private theorem placeContent_foldCase (layout : Layout) (c : Content) :
    placeContent limit layout c.foldCase =
      (placeContent limit layout c).map fun (line, next) ↦ (line.foldCase, next) := by
  unfold placeContent
  rw [Content.size_foldCase]
  cases layout.allocate limit c.size <;> rfl

/-- The result of a step with the label operand of its line in upper case. -/
def foldStep (step : Option Line × Layout) : Option Line × Layout :=
  (step.1.map Line.foldCase, step.2)

private theorem map_foldStep_bind (layout : Layout) (x : Except Fault Content) :
    ((x.bind (placeContent limit layout)).map fun (line, next) ↦ (some line, next)).map foldStep =
      ((x.map Content.foldCase).bind (placeContent limit layout)).map
        fun (line, next) ↦ (some line, next) := by
  cases x with
  | error fault => rfl
  | ok c =>
    simp only [Except.bind, Except.map, placeContent_foldCase]
    cases placeContent limit layout c <;> rfl

/-- A statement is placed alike whatever the case of its operands. -/
theorem placeStatement_capitalize (layout : Layout) (s : Statement) :
    (placeStatement g limit layout (s.mapOperands g.capitalizeToken)).map foldStep =
      (placeStatement g limit layout s).map foldStep := by
  have hm : (s.mapOperands g.capitalizeToken).mnemonic = s.mnemonic := rfl
  have hl : (s.mapOperands g.capitalizeToken).label = s.label := rfl
  have ho : (s.mapOperands g.capitalizeToken).operands = s.operands.map g.capitalizeToken := rfl
  unfold placeStatement
  rw [hm, hl, ho]
  split
  · rfl
  · cases s.operands <;> simp [placeStart, Operands.map, Operands.single, startAddress]
  · cases s.operands <;> simp [placeEnd, Operands.map, entryAddress]
  · next kind _ =>
    cases s.operands <;>
      simp [Operands.map, Operands.single, Except.bind, storageContent_capitalizeToken]
  · next d _ => rw [map_foldStep_bind, map_foldStep_bind, instructionContent_capitalize]

/-- A capitalized line defines the same label and is placed alike. -/
theorem placeLine_capitalize (g : Grammar) (limit : Nat) (layout : Layout) (known : SymbolTable)
    (tokens : List String) :
    (placeLine g limit layout known (g.capitalize tokens)).2 =
        (placeLine g limit layout known tokens).2 ∧
      (placeLine g limit layout known (g.capitalize tokens)).1.map foldStep =
        (placeLine g limit layout known tokens).1.map foldStep := by
  unfold placeLine Grammar.parse
  rw [g.statement?_capitalize]
  cases g.statement? tokens with
  | none => exact ⟨rfl, rfl⟩
  | some s =>
    have hl : (s.mapOperands g.capitalizeToken).label = s.label := rfl
    simp only [Option.map_some, hl]
    cases defineLabel layout known s.label with
    | error fault => exact ⟨rfl, rfl⟩
    | ok defined => exact ⟨rfl, placeStatement_capitalize layout s⟩

/-- A placed program with the label operands of its listing in upper case. -/
def Placed.foldCase (placed : Placed) : Placed :=
  { placed with lines := placed.lines.map Line.foldCase }

/-- What a run comes to apart from the lines of its errors and the case of label operands. -/
def outcome (result : Except Error Placed × SymbolTable) : Except Fault Placed × SymbolTable :=
  ((result.1.mapError Error.fault).map Placed.foldCase, result.2)

private theorem outcome_prepend (line : Option Line)
    (result : Except Error Placed × SymbolTable) :
    outcome (prepend line result) =
      ((outcome result).1.map fun placed ↦
        { placed with lines := (line.map Line.foldCase).toList ++ placed.lines }, result.2) := by
  rcases result with ⟨e | placed, table⟩
  · rfl
  · cases line <;> simp [outcome, prepend, Except.map, Except.mapError, Placed.foldCase]

/-- A capitalized source comes to the same as the source. -/
theorem outcome_placeFrom_capitalize (layout : Layout) (known : SymbolTable)
    (source : List (List String)) :
    outcome (placeFrom g limit layout known (source.map g.capitalize)) =
      outcome (placeFrom g limit layout known source) := by
  induction source generalizing layout known with
  | nil => rfl
  | cons tokens rest ih =>
    rw [List.map_cons]
    cases hf : standingFault? limit layout with
    | some fault => simp [placeFrom, hf, outcome, Except.mapError]
    | none =>
      cases he : layout.endSeen with
      | true => rw [placeFrom_of_endSeen he hf, placeFrom_of_endSeen he hf]
      | false =>
        obtain ⟨hsymbols, hstep⟩ := placeLine_capitalize g limit layout known tokens
        rw [placeFrom_cons hf he, placeFrom_cons hf he]
        rcases hp : placeLine g limit layout known tokens with ⟨fault | ⟨line, next⟩, defined⟩ <;>
          rcases hq : placeLine g limit layout known (g.capitalize tokens) with
            ⟨fault' | ⟨line', next'⟩, defined'⟩ <;>
          rw [hp, hq] at hsymbols hstep
        · obtain rfl := Except.error.inj hstep
          obtain rfl : defined' = defined := hsymbols
          rfl
        · cases hstep
        · cases hstep
        · obtain ⟨hline, rfl⟩ := Prod.mk.inj (Except.ok.inj hstep)
          obtain rfl : defined' = defined := hsymbols
          have hrest := ih next' defined'
          have htable : (placeFrom g limit next' defined' (rest.map g.capitalize)).2 =
              (placeFrom g limit next' defined' rest).2 := (Prod.mk.inj hrest).2
          simp only [outcome_prepend, hrest, htable]
          rw [show line'.map Line.foldCase = line.map Line.foldCase from hline]

end Placement

/-! ### Encoding the listing of a capitalized source -/

namespace Encoding

open Listing (Line)

variable {symbols : SymbolTable}

private theorem mapError_collect_cons {α β : Type} (f : α → Except Error β) (a : α)
    (rest : List α) :
    (collect f (a :: rest)).mapError Error.fault =
      ((f a).mapError Error.fault).bind fun b ↦
        ((collect f rest).mapError Error.fault).map (b :: ·) := by
  rw [collect]
  cases f a with
  | error e => rfl
  | ok b => cases collect f rest <;> rfl

private theorem mapError_collect_congr {α β : Type} {f : α → Except Error β} {xs ys : List α}
    (h : (xs.map fun a ↦ (f a).mapError Error.fault) = ys.map fun a ↦ (f a).mapError Error.fault) :
    (collect f xs).mapError Error.fault = (collect f ys).mapError Error.fault := by
  induction xs generalizing ys with
  | nil =>
    cases ys with
    | nil => rfl
    | cons y ys => cases h
  | cons x xs ih =>
    cases ys with
    | nil => cases h
    | cons y ys =>
      rw [List.map_cons, List.map_cons, List.cons.injEq] at h
      rw [mapError_collect_cons, mapError_collect_cons, h.1, ih h.2]

/-- The faults of the text lines of items are those of their typed records. -/
private theorem map_lineRecord_fault (symbols : SymbolTable) {lines : List Line}
    (h : ∀ line ∈ lines, ∃ address c, line = .body address c ∧ c.Fits) :
    ((lines.map Line.tokens).map fun tokens ↦ (lineRecord symbols tokens).mapError Error.fault) =
      lines.map fun line ↦ orUndefined (line.record? symbols) := by
  rw [List.map_map]
  apply List.map_congr_left
  intro line hm
  obtain ⟨address, c, rfl, hc⟩ := h line hm
  rw [Function.comp_apply, lineRecord_tokens symbols hc address]
  cases orUndefined ((Line.body address c).record? symbols) <;> rfl

private theorem mapError_run_cons (layout : Layout) (first : List String)
    (rest : List (List String)) :
    (run symbols layout (first :: rest)).mapError Error.fault =
      ((headerRecord layout first).mapError Error.fault).bind fun header ↦
        ((collect (lineRecord symbols) rest).mapError Error.fault).bind fun body ↦
          ((endRecord layout).mapError Error.fault).map fun last ↦ header :: body ++ [last] := by
  rw [run]
  cases headerRecord layout first with
  | error e => rfl
  | ok header =>
    cases collect (lineRecord symbols) rest with
    | error e => rfl
    | ok body => cases endRecord layout <;> rfl

/-- Listings that differ only in the case of label operands are encoded alike. -/
theorem run_foldCase {p q : Program} (hp : ∀ item ∈ p.items, item.content.Fits)
    (hq : ∀ item ∈ q.items, item.content.Fits)
    (h : q.listing.map Line.foldCase = p.listing.map Line.foldCase) (symbols : SymbolTable)
    (layout : Layout) :
    (run symbols layout (q.listing.map Line.tokens)).mapError Error.fault =
      (run symbols layout (p.listing.map Line.tokens)).mapError Error.fault := by
  have body : ∀ {r : Program}, (∀ item ∈ r.items, item.content.Fits) →
      ∀ line ∈ Program.linesFrom r.start r.items,
        ∃ address c, line = .body address c ∧ c.Fits := by
    intro r hr line hm
    obtain ⟨address, item, hi, rfl⟩ := Program.exists_item_of_mem_linesFrom hm
    exact ⟨address, item.content, rfl, hr item hi⟩
  have folded : ∀ lines : List Line,
      (lines.map fun line ↦ orUndefined (line.record? symbols)) =
        (lines.map Line.foldCase).map fun line ↦ orUndefined (line.record? symbols) := by
    intro lines
    simp [Function.comp_def]
  rw [Program.listing, Program.listing, List.map_cons, List.map_cons, List.cons.injEq] at h
  obtain ⟨hstart, hbody⟩ := h
  have hcollect : (collect (lineRecord symbols)
        ((Program.linesFrom q.start q.items).map Line.tokens)).mapError Error.fault =
      (collect (lineRecord symbols)
        ((Program.linesFrom p.start p.items).map Line.tokens)).mapError Error.fault := by
    apply mapError_collect_congr
    rw [map_lineRecord_fault symbols (body hq), map_lineRecord_fault symbols (body hp), folded,
      hbody, ← folded]
  obtain ⟨hname, haddress⟩ := Line.start.inj hstart
  rw [Program.listing, Program.listing, List.map_cons, List.map_cons, mapError_run_cons,
    mapError_run_cons, hcollect, hname, haddress]

end Encoding

namespace Listing

/-- A line that differs only in the case of a label operand from a line of a text is one as well. -/
theorem isLine_of_foldCase_eq {line other : Line} (h : Token.IsLine line.tokens)
    (hw : other.WellFormed) (he : other.foldCase = line.foldCase) : Token.IsLine other.tokens := by
  cases other with
  | start label address => exact isLine_start hw address
  | body address content =>
    have hc : content.WellFormed := hw
    cases content with
    | literal token =>
      -- A literal is not folded, so the two lines are the same.
      have hline : line = .body address (.literal token) := by
        cases line with
        | start _ _ => cases he
        | body address' content' =>
          cases content' <;> cases he
          rfl
      rw [hline] at h
      exact h
    | _ => exact isLine_body hc trivial address

/-- The text of well-formed lines has their tokens, if they differ only in the case of label operands
from lines of a text. -/
theorem ofText_render_of_foldCase_eq {lines others : List Line}
    (h : ∀ line ∈ lines, Token.IsLine line.tokens) (hw : ∀ other ∈ others, other.WellFormed)
    (he : others.map Line.foldCase = lines.map Line.foldCase) :
    Token.ofText (render others) = others.map Line.tokens := by
  apply ofText_render
  intro other hm
  have hfolded := List.mem_map_of_mem (f := Line.foldCase) hm
  rw [he] at hfolded
  obtain ⟨line, hl, hline⟩ := List.mem_map.mp hfolded
  exact isLine_of_foldCase_eq (h line hl) (hw other hm) hline.symm

end Listing

namespace Placement

open Listing (Line)

/-- Putting the mnemonic of every line that has a statement, and every token that can be a label,
in upper case changes nothing but the case of label operands in the listing: both sources fail with
the same fault, hence the same category and message, or both are placed with the same layout, and
the same symbols are left in either case. If the source is that of a text, the texts of the two
listings are encoded to the same records, or refused for the same fault. -/
theorem run_ignores_case (options : Options) (table : OpTable) (known : SymbolTable)
    (source : List (List String)) :
    let original := run options table known source
    let capitalized := run options table known (source.map (grammar options table).capitalize)
    capitalized.2 = original.2 ∧
      ((∃ e e', original.1 = .error e ∧ capitalized.1 = .error e' ∧ e'.fault = e.fault) ∨
        ∃ placed placed', original.1 = .ok placed ∧ capitalized.1 = .ok placed' ∧
          placed'.layout = placed.layout ∧
          placed'.lines.map Line.foldCase = placed.lines.map Line.foldCase ∧
          ∀ text, source = Token.ofText text → ∀ (symbols : SymbolTable) (layout : Layout),
            (Encoding.run symbols layout
                (Token.ofText (Listing.render placed'.lines))).mapError Error.fault =
              (Encoding.run symbols layout
                (Token.ofText (Listing.render placed.lines))).mapError Error.fault) := by
  intro original capitalized
  have houtcome : outcome capitalized = outcome original :=
    outcome_placeFrom_capitalize .initial known source
  obtain ⟨hresult, hsymbols⟩ := Prod.mk.inj houtcome
  refine ⟨hsymbols, ?_⟩
  cases ho : original.1 with
  | error e =>
    cases hc : capitalized.1 with
    | error e' =>
      rw [ho, hc] at hresult
      exact Or.inl ⟨e, e', rfl, rfl, Except.error.inj hresult⟩
    | ok placed' =>
      rw [ho, hc] at hresult
      cases hresult
  | ok placed =>
    cases hc : capitalized.1 with
    | error e' =>
      rw [ho, hc] at hresult
      cases hresult
    | ok placed' =>
      rw [ho, hc] at hresult
      obtain ⟨hlines, hlayout⟩ := Placed.mk.inj (Except.ok.inj hresult)
      refine Or.inr ⟨placed, placed', rfl, rfl, hlayout, hlines, ?_⟩
      rintro text rfl symbols layout
      obtain ⟨p, hp, hpfit, -, -, rfl, -⟩ := run_eq_ok_iff.mp (Prod.ext ho rfl)
      obtain ⟨q, hq, hqfit, -, -, rfl, -⟩ := run_eq_ok_iff.mp (Prod.ext hc rfl)
      have hlisting : ∀ line ∈ p.listing, Token.IsLine line.tokens := fun line hm ↦
        Program.isLine_of_mem_listing hp
          (fun _ ht ↦ Token.isLine_of_mem_ofText (List.mem_of_mem_tail ht)) hm
      rw [Program.ofText_render_listing hp, Listing.ofText_render_of_foldCase_eq hlisting
        (fun _ hm ↦ Program.wellFormed_of_mem_listing hq hm) hlines]
      exact Encoding.run_foldCase (Program.fits_of_mem_items hp hpfit options.limit_lt)
        (Program.fits_of_mem_items hq hqfit options.limit_lt) hlines symbols layout

/-- The sample text in upper case is placed like the sample program, apart from the label operand of
its jump, and its listing text is encoded to the same records. -/
theorem run_ignores_case_sample :
    ∃ placed, (run {} .standard .empty
        ((Token.ofText Program.sampleText).map (grammar {} .standard).capitalize)).1 = .ok placed ∧
      placed.layout = Program.sample.layout ∧
      placed.lines.map Line.foldCase = Program.sample.listing.map Line.foldCase ∧
      (Encoding.run ⟨Program.sample.symbols⟩ placed.layout
          (Token.ofText (Listing.render placed.lines))).mapError Error.fault =
        (Encoding.run ⟨Program.sample.symbols⟩ placed.layout
          (Token.ofText (Listing.render Program.sample.listing))).mapError Error.fault := by
  have hsample := congrArg Prod.fst Program.sample_run
  rcases (run_ignores_case {} .standard .empty (Token.ofText Program.sampleText)).2 with
    ⟨e, e', he, -⟩ | ⟨placed, placed', ho, hc, hlayout, hlines, hencode⟩
  · rw [hsample] at he
    cases he
  · rw [hsample] at ho
    obtain rfl := Except.ok.inj ho
    exact ⟨placed', hc, hlayout, hlines, hencode Program.sampleText rfl _ _⟩

end Placement

end SicXe
