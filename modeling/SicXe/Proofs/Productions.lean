import SicXe.Proofs.Precedence

/-!
# Productions of the line grammar

A token line has one of six forms: with or without a label, and with none, one or two operands. A
label is neither an instruction nor a directive, so a line has at most one form, and it does not
matter in which order the forms are tried. Tokens are recognised as mnemonics by their name without
regard to the case of ASCII letters, or by their full upper-case form; the upper-case form is also
what is kept. Since names are ASCII text, a mnemonic that is kept is recognised again, and a run
never meets one that it does not know.
-/

namespace SicXe

/-! ### The end directive in upper case -/

namespace Text

private theorem ofNat_not_mem_end {n : Nat} (h : 128 ≤ n) : Char.ofNat n ∉ ['E', 'N', 'D'] := by
  have hn : (Char.ofNat n).toNat = n ∨ (Char.ofNat n).toNat = 0 := by
    rw [Char.toNat_ofNat]
    split
    · exact Or.inl rfl
    · exact Or.inr rfl
  intro hmem
  have hsmall : (Char.ofNat n).toNat ∈ [69, 78, 68] := List.mem_map_of_mem (f := Char.toNat) hmem
  simp only [List.mem_cons, List.not_mem_nil, or_false] at hsmall
  omega

/-- The upper-case form of a character outside ASCII is not made of the letters of the end
directive. -/
theorem exists_mem_upper {c : Char} (h : isAscii c = false) :
    ∃ d ∈ upper c, d ∉ ['E', 'N', 'D'] := by
  have expansions : (caseExpansions.all fun entry ↦
      (entry.2.map Char.ofNat).any fun d ↦ d ∉ ['E', 'N', 'D']) = true := by decide +kernel
  have runs : ∀ run ∈ caseRuns, 128 ≤ run.target ∨
      run.first = run.last ∧ Char.ofNat run.target ∉ ['E', 'N', 'D'] := by decide +kernel
  simp only [upper, h, Bool.false_eq_true, ↓reduceIte]
  split
  · next form hfind =>
    have hform := List.all_eq_true.mp expansions _ (List.mem_of_find?_eq_some hfind)
    simpa only [List.any_eq_true, decide_eq_true_eq] using hform
  · split
    · next run hfind =>
      refine ⟨_, List.mem_singleton_self _, ?_⟩
      rcases runs run (List.mem_of_find?_eq_some hfind) with hfar | ⟨hone, hletter⟩
      · apply ofNat_not_mem_end
        unfold CaseRun.image
        omega
      · have hcover := List.find?_some hfind
        simp only [CaseRun.covers, Bool.and_eq_true, decide_eq_true_eq] at hcover
        have himage : run.image c.toNat = run.target := by
          unfold CaseRun.image
          omega
        rwa [himage]
    · refine ⟨c, List.mem_singleton_self c, ?_⟩
      rw [← Char.ofNat_toNat c]
      apply ofNat_not_mem_end
      simpa [isAscii] using h

end Text

/-- The end directive is the same for both ways to recognise a name. -/
theorem Directive.ofToken?_eq_finish_iff {token : String} :
    ofToken? token = some .finish ↔ Text.sameName token "END" = true := by
  have hkey : Text.nameKey "END" = "END" := by cbv
  have hletters : Directive.finish.name.toList = ['E', 'N', 'D'] := by decide
  rw [ofToken?_eq_some_iff, Text.sameName_iff, hkey]
  constructor
  · intro h
    have hascii : ∀ c ∈ token.toList, Text.isAscii c = true := by
      intro c hc
      by_contra hn
      obtain ⟨d, hd, hletter⟩ := Text.exists_mem_upper (by simpa using hn)
      have hmem : d ∈ (Text.uppercase token).toList := by
        rw [Text.toList_uppercase]
        exact List.mem_flatMap.mpr ⟨c, hc, hd⟩
      rw [h, hletters] at hmem
      exact hletter hmem
    rw [← Text.uppercase_of_ascii hascii, h]
    rfl
  · intro h
    rw [← Text.uppercase_nameKey, h]
    decide

/-! ### Forms of a token line -/

/-- The forms of a token line, by whether there is a label and by the number of operands. -/
inductive Production where
  | mnemonic
  | labelMnemonic
  | mnemonicOperand
  | labelMnemonicOperand
  | mnemonicOperands
  | labelMnemonicOperands
  deriving DecidableEq, Repr

namespace Grammar

variable {g : Grammar} {tokens : List String} {s t : Statement}

/-- A token line has a form, and the statement of that form: label and mnemonic in upper case and the
operands as they are. -/
inductive Derives (g : Grammar) : Production → List String → Statement → Prop
  | mnemonic {a : String} :
      (g.isInstruction a = true ∨ Directive.ofToken? a = some .finish) →
        Derives g .mnemonic [a] ⟨none, Text.uppercase a, .none⟩
  | labelMnemonic {a b : String} : g.isLabel a = true →
      (g.isInstruction b = true ∨ Directive.ofToken? b = some .start ∨
        Directive.ofToken? b = some .finish) →
        Derives g .labelMnemonic [a, b] ⟨some (Text.uppercase a), Text.uppercase b, .none⟩
  | mnemonicOperand {a b : String} :
      (g.isInstruction a = true ∨ Directive.isName a = true) →
        Derives g .mnemonicOperand [a, b] ⟨none, Text.uppercase a, .one b⟩
  | labelMnemonicOperand {a b c : String} : g.isLabel a = true →
      (g.isInstruction b = true ∨ Directive.isName b = true) →
        Derives g .labelMnemonicOperand [a, b, c]
          ⟨some (Text.uppercase a), Text.uppercase b, .one c⟩
  | mnemonicOperands {a b c : String} : g.isInstruction a = true →
      Derives g .mnemonicOperands [a, b, c] ⟨none, Text.uppercase a, .two b c⟩
  | labelMnemonicOperands {a b c d : String} : g.isLabel a = true → g.isInstruction b = true →
      Derives g .labelMnemonicOperands [a, b, c, d]
        ⟨some (Text.uppercase a), Text.uppercase b, .two c d⟩

/-- A mnemonic is an instruction or a directive. -/
theorem isMnemonic_iff {token : String} :
    g.isMnemonic token = true ↔ g.isInstruction token = true ∨ Directive.isName token = true := by
  rw [isMnemonic, Bool.or_eq_true]

/-- What can stand alone after a label. -/
theorem standsAlone_iff {token : String} :
    g.standsAlone token = true ↔ g.isInstruction token = true ∨
      Directive.ofToken? token = some .start ∨ Directive.ofToken? token = some .finish := by
  simp [standsAlone, or_assoc]

/-- A token line has one form at most, and one statement for it. -/
theorem Derives.unique {p q : Production} (hp : g.Derives p tokens s) (hq : g.Derives q tokens t) :
    p = q ∧ s = t := by
  have exclude {token : String} (hl : g.isLabel token = true)
      (hm : g.isInstruction token = true ∨ Directive.isName token = true) : False := by
    rw [isLabel_eq_false_of_isMnemonic (isMnemonic_iff.mpr hm)] at hl
    cases hl
  cases hp with
  | mnemonic _ =>
    cases hq with
    | mnemonic _ => exact ⟨rfl, rfl⟩
  | labelMnemonic hl _ =>
    cases hq with
    | labelMnemonic _ _ => exact ⟨rfl, rfl⟩
    | mnemonicOperand hm => exact (exclude hl hm).elim
  | mnemonicOperand hm =>
    cases hq with
    | labelMnemonic hl _ => exact (exclude hl hm).elim
    | mnemonicOperand _ => exact ⟨rfl, rfl⟩
  | labelMnemonicOperand hl _ =>
    cases hq with
    | labelMnemonicOperand _ _ => exact ⟨rfl, rfl⟩
    | mnemonicOperands hi => exact (exclude hl (Or.inl hi)).elim
  | mnemonicOperands hi =>
    cases hq with
    | labelMnemonicOperand hl _ => exact (exclude hl (Or.inl hi)).elim
    | mnemonicOperands _ => exact ⟨rfl, rfl⟩
  | labelMnemonicOperands _ _ =>
    cases hq with
    | labelMnemonicOperands _ _ => exact ⟨rfl, rfl⟩

/-- A form of a token line gives its reading. -/
theorem Derives.statement? {p : Production} (h : g.Derives p tokens s) :
    g.statement? tokens = some s := by
  cases h with
  | mnemonic hm =>
    rw [Directive.ofToken?_eq_finish_iff] at hm
    exact if_pos (by simpa using hm)
  | labelMnemonic hl hb =>
    exact if_pos (by simp [hl, standsAlone_iff.mpr hb])
  | mnemonicOperand hm =>
    have hmnemonic := isMnemonic_iff.mpr hm
    simp [Grammar.statement?, isLabel_eq_false_of_isMnemonic hmnemonic, hmnemonic,
      Statement.ofWritten]
  | labelMnemonicOperand hl hb =>
    exact if_pos (by simp [hl, isMnemonic_iff.mpr hb])
  | mnemonicOperands hi =>
    have hlabel := isLabel_eq_false_of_isMnemonic (isMnemonic_iff.mpr (Or.inl hi))
    simp [Grammar.statement?, hlabel, hi, Statement.ofWritten]
  | labelMnemonicOperands hl hi =>
    exact if_pos (by simp [hl, hi])

/-- A token line that has a reading has a form. -/
theorem exists_derives (h : g.statement? tokens = some s) : ∃ p, g.Derives p tokens s := by
  unfold Grammar.statement? at h
  split at h
  · split at h
    · next hm =>
      obtain rfl := Option.some.inj h
      rw [Bool.or_eq_true, ← Directive.ofToken?_eq_finish_iff] at hm
      exact ⟨.mnemonic, .mnemonic hm⟩
    · cases h
  · split at h
    · next hl =>
      obtain rfl := Option.some.inj h
      rw [Bool.and_eq_true, standsAlone_iff] at hl
      exact ⟨.labelMnemonic, .labelMnemonic hl.1 hl.2⟩
    · split at h
      · next hm =>
        obtain rfl := Option.some.inj h
        exact ⟨.mnemonicOperand, .mnemonicOperand (isMnemonic_iff.mp hm)⟩
      · cases h
  · split at h
    · next hl =>
      obtain rfl := Option.some.inj h
      rw [Bool.and_eq_true, isMnemonic_iff] at hl
      exact ⟨.labelMnemonicOperand, .labelMnemonicOperand hl.1 hl.2⟩
    · split at h
      · next hi =>
        obtain rfl := Option.some.inj h
        exact ⟨.mnemonicOperands, .mnemonicOperands hi⟩
      · cases h
  · split at h
    · next hl =>
      obtain rfl := Option.some.inj h
      rw [Bool.and_eq_true] at hl
      exact ⟨.labelMnemonicOperands, .labelMnemonicOperands hl.1 hl.2⟩
    · cases h
  · cases h

/-- Parsing succeeds with the statement of a form of the line. -/
theorem parse_eq_ok_iff : g.parse tokens = .ok s ↔ ∃ p, g.Derives p tokens s := by
  have hparse : g.parse tokens = .ok s ↔ g.statement? tokens = some s := by
    unfold parse
    cases g.statement? tokens with
    | none => simp
    | some r => simp
  rw [hparse]
  exact ⟨exists_derives, fun ⟨_, h⟩ ↦ h.statement?⟩

/-- Parsing succeeds exactly on the token lines that have one form. -/
theorem exists_parse_iff :
    (∃ s, g.parse tokens = .ok s) ↔ ∃! p, ∃ s, g.Derives p tokens s := by
  simp only [parse_eq_ok_iff]
  constructor
  · rintro ⟨s, p, hp⟩
    refine ⟨p, ⟨s, hp⟩, ?_⟩
    rintro q ⟨t, hq⟩
    exact (hq.unique hp).1
  · rintro ⟨p, ⟨s, hp⟩, -⟩
    exact ⟨s, p, hp⟩

/-! ### Mnemonics are recognised again -/

/-- The directive that a token names is named by its upper-case form. -/
theorem isName_uppercase {token : String} (h : Directive.isName token = true) :
    Directive.isName (Text.uppercase token) = true := by
  obtain ⟨directive, hd⟩ := Option.isSome_iff_exists.mp h
  have hname : Directive.ofToken? (Text.uppercase token) = some directive := by
    rw [(Directive.ofToken?_eq_some_iff token directive).mp hd]
    rcases directive with _ | _ | (_ | _ | _ | _) <;> decide
  rw [Directive.isName, hname]
  rfl

/-- The upper-case form of an instruction is found in the table. -/
theorem contains_uppercase (hw : g.table.WellFormed) {token : String}
    (h : g.isInstruction token = true) : g.table.contains (Text.uppercase token) = true := by
  obtain ⟨d, hd⟩ := Option.isSome_iff_exists.mp h
  have hmem := List.mem_of_find?_eq_some hd
  have hname : Text.sameName token d.name = true := by
    have := List.find?_some hd
    rw [Text.sameName_iff] at this ⊢
    exact this.symm
  have hkey : Text.sameName (Text.nameKey d.name) d.name = true := by
    rw [Text.sameName_nameKey, Text.sameName_iff]
  rw [OpTable.contains, hw.uppercase_of_sameName hmem hname, hw.find?_of_sameName hmem hkey]
  rfl

/-- The mnemonic of a parsed line names a directive or is found in the table. -/
theorem Derives.recognised (hw : g.table.WellFormed) {p : Production}
    (h : g.Derives p tokens s) :
    Directive.isName s.mnemonic = true ∨ g.table.contains s.mnemonic = true := by
  have directive {token : String} {directive : Directive}
      (h : Directive.ofToken? token = some directive) :
      Directive.isName (Text.uppercase token) = true :=
    isName_uppercase (by rw [Directive.isName, h]; rfl)
  cases h with
  | mnemonic hm => exact hm.symm.imp directive (contains_uppercase hw)
  | labelMnemonic _ hb =>
    rcases hb with hi | hd | hd
    · exact Or.inr (contains_uppercase hw hi)
    · exact Or.inl (directive hd)
    · exact Or.inl (directive hd)
  | mnemonicOperand hm => exact hm.symm.imp isName_uppercase (contains_uppercase hw)
  | labelMnemonicOperand _ hb => exact hb.symm.imp isName_uppercase (contains_uppercase hw)
  | mnemonicOperands hi => exact Or.inr (contains_uppercase hw hi)
  | labelMnemonicOperands _ hi => exact Or.inr (contains_uppercase hw hi)

/-- A recognised mnemonic stands for an operation. -/
theorem exists_operation {mnemonic : String}
    (h : Directive.isName mnemonic = true ∨ g.table.contains mnemonic = true) :
    ∃ operation, g.operation? mnemonic = some operation := by
  unfold operation?
  cases hd : Directive.ofToken? mnemonic with
  | some directive => exact ⟨_, rfl⟩
  | none =>
    have hfind : (g.table.find? mnemonic).isSome = true := by
      simpa [Directive.isName, hd, OpTable.contains] using h
    obtain ⟨d, hd⟩ := Option.isSome_iff_exists.mp hfind
    exact ⟨.instruction d, by rw [hd]; rfl⟩

end Grammar

/-! ### Faults of a run -/

namespace Placement

variable {α β : Type} {g : Grammar} {limit low high : Nat} {layout : Layout}
  {symbols : SymbolTable} {operand : String}

/-- A result that is not refused for an unknown mnemonic. -/
def KnowsMnemonic (result : Except Fault α) : Prop :=
  ∀ fault, result = .error fault → fault.category ≠ .unknownMnemonic

namespace KnowsMnemonic

/-- A success is not refused. -/
@[simp] theorem ok (a : α) : KnowsMnemonic (.ok a) := by
  intro fault h
  cases h

/-- A refusal is judged by its category. -/
@[simp] theorem error_iff {fault : Fault} :
    KnowsMnemonic (.error fault : Except Fault α) ↔ fault.category ≠ .unknownMnemonic := by
  simp [KnowsMnemonic]

/-- What is made of a success does not matter. -/
theorem map {result : Except Fault α} (h : KnowsMnemonic result) (f : α → β) :
    KnowsMnemonic (result.map f) := by
  cases result with
  | error fault => simpa [Except.map] using h
  | ok a => exact ok (f a)

/-- Two results are refused for the reasons of either. -/
theorem bind {result : Except Fault α} {f : α → Except Fault β} (h : KnowsMnemonic result)
    (hf : ∀ a, KnowsMnemonic (f a)) : KnowsMnemonic (result.bind f) := by
  cases result with
  | error fault => simpa [Except.bind] using h
  | ok a => exact hf a

end KnowsMnemonic

open KnowsMnemonic

private theorem knowsMnemonic_single (operands : Operands) : KnowsMnemonic operands.single := by
  cases operands <;> simp [Operands.single, Fault.category]

private theorem knowsMnemonic_number : KnowsMnemonic (number low high operand) := by
  unfold number
  split
  · simp [Fault.category]
  · split <;> simp [Fault.category]

private theorem knowsMnemonic_byteContent : KnowsMnemonic (byteContent operand) := by
  unfold byteContent
  split
  · split <;> simp [Fault.category]
  · split
    · simp
    · split <;> simp [Fault.category]

/-- A storage directive is refused for its operand. -/
theorem knowsMnemonic_storageContent (kind : Storage) (operand : String) :
    KnowsMnemonic (storageContent kind operand) := by
  cases kind with
  | word => exact knowsMnemonic_number.map _
  | byte => exact knowsMnemonic_byteContent
  | reserveWords => exact knowsMnemonic_number.map _
  | reserveBytes => exact knowsMnemonic_number.map _

/-- An instruction is refused for its operands. -/
theorem knowsMnemonic_instructionContent (d : Definition) (operands : Operands) :
    KnowsMnemonic (instructionContent g d operands) := by
  have address (operand : String) : KnowsMnemonic (addressContent g d.codeByte operand) := by
    unfold addressContent
    split
    · simp
    · split <;> simp [Fault.category]
  unfold instructionContent
  split
  · simp
  · simp [Fault.category]
  · simp [Fault.category]
  · split <;> simp [Fault.category]
  · exact knowsMnemonic_number.map _
  · exact (knowsMnemonic_single _).bind address

/-- A start directive is refused for its operand, its place or its label. -/
theorem knowsMnemonic_placeStart (label : Option String) (operands : Operands) :
    KnowsMnemonic (placeStart limit layout label operands) := by
  have address (operand : String) : KnowsMnemonic (startAddress limit operand) := by
    unfold startAddress
    split
    · simp [Fault.category]
    · split <;> simp [Fault.category]
  unfold placeStart
  split
  · next fault h => exact error_iff.mpr (knowsMnemonic_single operands fault h)
  · next operand _ =>
    split
    · simp [Fault.category]
    · split
      · next fault h => exact error_iff.mpr (address operand fault h)
      · split <;> simp [Fault.category]

/-- An end directive is refused for its operands or its place. -/
theorem knowsMnemonic_placeEnd (operands : Operands) :
    KnowsMnemonic (placeEnd limit layout operands) := by
  have address (operand : String) : KnowsMnemonic (entryAddress limit operand) := by
    unfold entryAddress
    split
    · simp [Fault.category]
    · split <;> simp [Fault.category]
  unfold placeEnd
  split
  · simp [Fault.category]
  · split <;> simp [Fault.category]
  · next operand =>
    split
    · exact (address operand).map _
    · simp [Fault.category]

/-- Content is refused if it does not fit. -/
theorem knowsMnemonic_placeContent (content : Listing.Content) :
    KnowsMnemonic (placeContent limit layout content) := by
  apply KnowsMnemonic.map
  unfold Layout.allocate
  split <;> simp [Fault.category]

/-- A statement whose mnemonic stands for something is not refused for its mnemonic. -/
theorem knowsMnemonic_placeStatement {s : Statement} {operation : Operation}
    (h : g.operation? s.mnemonic = some operation) :
    KnowsMnemonic (placeStatement g limit layout s) := by
  unfold placeStatement
  rw [h]
  rcases operation with (_ | _ | kind) | d
  · exact (knowsMnemonic_placeStart s.label s.operands).map _
  · exact (knowsMnemonic_placeEnd s.operands).map _
  · have hcontent := (knowsMnemonic_single s.operands).bind (knowsMnemonic_storageContent kind)
    exact (hcontent.bind knowsMnemonic_placeContent).map _
  · have hcontent := knowsMnemonic_instructionContent (g := g) d s.operands
    exact (hcontent.bind knowsMnemonic_placeContent).map _

private theorem knowsMnemonic_parse (tokens : List String) : KnowsMnemonic (g.parse tokens) := by
  unfold Grammar.parse
  split <;> simp [Fault.category]

private theorem knowsMnemonic_defineLabel (label : Option String) :
    KnowsMnemonic (defineLabel layout symbols label) := by
  unfold defineLabel
  split
  · simp
  · split
    · simp [Fault.category]
    · split <;> simp

/-- No line is refused for its mnemonic: a line that is parsed has one that is recognised. -/
theorem knowsMnemonic_placeLine (hw : g.table.WellFormed) (tokens : List String) :
    KnowsMnemonic (placeLine g limit layout symbols tokens).1 := by
  unfold placeLine
  split
  · next fault h => exact error_iff.mpr (knowsMnemonic_parse tokens fault h)
  · next s hs =>
    split
    · next fault h => exact error_iff.mpr (knowsMnemonic_defineLabel s.label fault h)
    · obtain ⟨p, hp⟩ := Grammar.parse_eq_ok_iff.mp hs
      obtain ⟨operation, hoperation⟩ := Grammar.exists_operation (hp.recognised hw)
      exact knowsMnemonic_placeStatement hoperation

/-- What is wrong before a line is not a mnemonic. -/
theorem category_ne_of_standingFault? {fault : Fault}
    (h : standingFault? limit layout = some fault) : fault.category ≠ .unknownMnemonic := by
  have hfault : fault = .overflow ∨ fault = .missingStart := by
    unfold standingFault? at h
    split at h
    · split at h
      · exact Or.inl (Option.some.inj h).symm
      · cases h
    · split at h
      · exact Or.inr (Option.some.inj h).symm
      · cases h
  rcases hfault with rfl | rfl <;> simp [Fault.category]

/-- No run is refused for an unknown mnemonic, since none of its lines is. -/
theorem category_ne_of_placeFrom (hw : g.table.WellFormed) {source : List (List String)} {e : Error}
    {final : SymbolTable} (h : placeFrom g limit layout symbols source = (.error e, final)) :
    e.fault.category ≠ .unknownMnemonic := by
  induction source generalizing layout symbols with
  | nil =>
    cases he : layout.endSeen with
    | true => simp [placeFrom, he] at h
    | false =>
      rw [placeFrom_nil g limit symbols he] at h
      obtain rfl := Except.error.inj (Prod.mk.inj h).1
      simp [endOfInput, Fault.category]
  | cons tokens rest ih =>
    cases hf : standingFault? limit layout with
    | some fault =>
      simp only [placeFrom, hf, Prod.mk.injEq, Except.error.injEq] at h
      rw [← h.1]
      exact category_ne_of_standingFault? hf
    | none =>
      cases he : layout.endSeen with
      | true =>
        rw [placeFrom_of_endSeen he hf] at h
        cases h
      | false =>
        rw [placeFrom_cons hf he] at h
        have hline : KnowsMnemonic (placeLine g limit layout symbols tokens).1 :=
          knowsMnemonic_placeLine hw tokens
        rcases hp : placeLine g limit layout symbols tokens with ⟨fault | ⟨line, next⟩, defined⟩
        · simp only [hp, Prod.mk.injEq, Except.error.injEq] at h
          rw [← h.1]
          exact hline fault (congrArg Prod.fst hp)
        · simp only [hp, prepend_eq_error_iff] at h
          exact ih h

/-- Every token line has at most one form and is parsed exactly when it has one; its statement has a
mnemonic that is recognised, so no run ends at an unknown mnemonic. -/
theorem line_forms_unambiguous {table : OpTable} (h : table.Accepted) (options : Options) :
    (∀ tokens p q s t, (grammar options table).Derives p tokens s →
        (grammar options table).Derives q tokens t → p = q ∧ s = t) ∧
      (∀ tokens, (∃ s, (grammar options table).parse tokens = .ok s) ↔
        ∃! p, ∃ s, (grammar options table).Derives p tokens s) ∧
      (∀ tokens s, (grammar options table).parse tokens = .ok s ↔
        ∃ p, (grammar options table).Derives p tokens s) ∧
      (∀ tokens s, (grammar options table).parse tokens = .ok s →
        Directive.isName s.mnemonic = true ∨ table.contains s.mnemonic = true) ∧
      ∀ known source e final, run options table known source = (.error e, final) →
        e.fault.category ≠ .unknownMnemonic := by
  have hw : (grammar options table).table.WellFormed := h.wellFormed
  refine ⟨?_, fun _ ↦ Grammar.exists_parse_iff, fun _ _ ↦ Grammar.parse_eq_ok_iff, ?_, ?_⟩
  · intro tokens p q s t hp hq
    exact hp.unique hq
  · intro tokens s hs
    obtain ⟨p, hp⟩ := Grammar.parse_eq_ok_iff.mp hs
    exact hp.recognised hw
  · intro known source e final hrun
    exact category_ne_of_placeFrom hw hrun

/-- A table with the names of a directive and of a register. -/
def namesakes : OpTable where
  definitions := [{ name := "WORD", opcode := 1, width := .one },
    { name := "R1", opcode := 2, width := .two }]

/-- With names that are taken elsewhere, and with a ligature in the name of a directive, a line still
has one form, and what is wrong with a program is not a mnemonic. -/
theorem line_forms_unambiguous_namesakes :
    OpTable.ofRows [⟨"WORD", "01", "1"⟩, ⟨"R1", "02", "2"⟩] = .ok namesakes ∧
      (∃! p, ∃ s, (grammar {} namesakes).Derives p ["P", "\uFB05art", "7"] s) ∧
      ∃ e final, run {} namesakes .empty [["P", "START", "7"], ["R1", "R2"], ["END"]] =
        (.error e, final) ∧ e.fault.category ≠ .unknownMnemonic := by
  have htable : OpTable.ofRows [⟨"WORD", "01", "1"⟩, ⟨"R1", "02", "2"⟩] = .ok namesakes := by
    decide +kernel
  have hparse : (grammar {} namesakes).parse ["P", "\uFB05art", "7"] =
      .ok ⟨some "P", "START", .one "7"⟩ := by cbv
  have hrun : run {} namesakes .empty [["P", "START", "7"], ["R1", "R2"], ["END"]] =
      (.error ⟨.operand .notNumber, "R1 R2"⟩, .empty) := by decide +kernel
  obtain ⟨-, honly, -, -, hknown⟩ := line_forms_unambiguous (.ofRows htable) {}
  exact ⟨htable, (honly _).mp ⟨_, hparse⟩, _, _, hrun, hknown _ _ _ _ hrun⟩

end Placement

end SicXe
