import SicXe.Proofs.Numbers
import SicXe.Proofs.TableText

/-!
# Checks of an instruction table

Rows form a table exactly when each of them is valid and no two agree in name or code. Otherwise
one row is to blame: the first that is not valid, with its name judged before its code and its code
before its length; else the first that repeats an earlier name; else the first that repeats an
earlier code. Typed definitions are checked by the same rules in the same order, so they fare as
the rows in which they are written.
-/

namespace SicXe

/-! ### Names and lengths -/

/-- What is wrong with a name. -/
inductive NameBlames (name : String) : DefinitionFault → Prop
  | empty : name.toList = [] → NameBlames name .emptyName
  | start {c : Char} {cs : List Char} :
      name.toList = c :: cs → c.isAlpha = false → NameBlames name .nameStart
  | character {c d : Char} {cs : List Char} :
      name.toList = c :: cs → c.isAlpha = true → d ∈ cs → d.isAlphanum = false →
      NameBlames name .nameCharacter

/-- A name is refused for what is wrong with it. -/
theorem nameFault?_eq_some_iff {name : String} {fault : DefinitionFault} :
    nameFault? name = some fault ↔ NameBlames name fault := by
  constructor
  · intro h
    unfold nameFault? at h
    split at h
    · next he =>
      cases h
      exact .empty he
    · next c cs he =>
      split at h
      · next hc =>
        cases h
        exact .start he (by simpa using hc)
      · next hc =>
        split at h
        · next hcs =>
          obtain ⟨d, hd, hf⟩ : ∃ d ∈ cs, d.isAlphanum = false := by simpa using hcs
          cases h
          exact .character he (by simpa using hc) hd hf
        · cases h
  · intro h
    cases h with
    | empty he => simp [nameFault?, he]
    | start he hc => simp [nameFault?, he, hc]
    | character he hc hd hf =>
      have hcs := List.all_eq_false.mpr ⟨_, hd, by simpa using hf⟩
      simp only [nameFault?, he, hc, hcs, Bool.not_true, Bool.false_eq_true, Bool.not_false,
        ↓reduceIte]

/-- A number of bytes has a width exactly when it is that of the width. -/
theorem Width.ofBytes?_eq_some_iff {n : Nat} {w : Width} : ofBytes? n = some w ↔ n = w.bytes := by
  constructor
  · intro h
    unfold ofBytes? at h
    split at h
    · cases h
      rfl
    · cases h
      rfl
    · cases h
      rfl
    · cases h
  · rintro rfl
    exact ofBytes?_bytes w

/-- The widths have 1, 2 and 4 bytes. -/
theorem Width.mem_iff_exists_bytes {n : Nat} : n ∈ [1, 2, 4] ↔ ∃ w : Width, n = w.bytes := by
  constructor
  · intro h
    simp only [List.mem_cons, List.not_mem_nil, or_false] at h
    rcases h with rfl | rfl | rfl
    · exact ⟨.one, rfl⟩
    · exact ⟨.two, rfl⟩
    · exact ⟨.four, rfl⟩
  · rintro ⟨w, rfl⟩
    cases w <;> decide

/-- A number of bytes has no width exactly when it is not 1, 2 or 4. -/
theorem Width.ofBytes?_eq_none_iff {n : Nat} : ofBytes? n = none ↔ n ∉ [1, 2, 4] := by
  rw [Width.mem_iff_exists_bytes, Option.eq_none_iff_forall_ne_some, not_exists]
  simp only [ne_eq, ofBytes?_eq_some_iff]

/-! ### Single rows -/

namespace Row

/-- A row with a proper name, a code of six bits and the length of a format. -/
structure Valid (row : Row) : Prop where
  /-- The name is a Latin letter followed by Latin letters and digits. -/
  name : IsInstructionName row.name
  /-- The code denotes a number of six bits. -/
  code : ∃ n ≤ maxOpcode, Text.IsHexNumber row.code n
  /-- The length denotes 1, 2 or 4. -/
  length : ∃ n ∈ [1, 2, 4], Text.IsHexNumber row.length n

/-- A valid row and the definition that it writes. -/
structure Defines (row : Row) (d : Definition) : Prop where
  /-- The name is spelled as one. -/
  name : IsInstructionName row.name
  /-- The name is taken as it is. -/
  name_eq : d.name = row.name
  /-- The code denotes the opcode. -/
  code : Text.IsHexNumber row.code d.opcode.toNat
  /-- The opcode has six bits. -/
  code_le : d.opcode.toNat ≤ maxOpcode
  /-- The length denotes the width. -/
  length : Text.IsHexNumber row.length d.width.bytes

/-- What is wrong with a row. A code is to blame only behind a proper name, and a length only
behind a proper name and code; a number of more than 32 bits counts as none. -/
inductive Blames (row : Row) : DefinitionFault → Prop
  | name {fault : DefinitionFault} : NameBlames row.name fault → Blames row fault
  | codeNotHex :
      IsInstructionName row.name → (∀ n < 4294967296, ¬ Text.IsHexNumber row.code n) →
      Blames row .codeNotHex
  | codeRange {n : Nat} :
      IsInstructionName row.name → Text.IsHexNumber row.code n → n < 4294967296 →
      maxOpcode < n → Blames row .codeRange
  | lengthNotHex {n : Nat} :
      IsInstructionName row.name → Text.IsHexNumber row.code n → n ≤ maxOpcode →
      (∀ n < 4294967296, ¬ Text.IsHexNumber row.length n) → Blames row .lengthNotHex
  | lengthValue {n bytes : Nat} :
      IsInstructionName row.name → Text.IsHexNumber row.code n → n ≤ maxOpcode →
      Text.IsHexNumber row.length bytes → bytes < 4294967296 → bytes ∉ [1, 2, 4] →
      Blames row .lengthValue

variable {row : Row}

private theorem toNat_opcode {n : Nat} (h : n ≤ maxOpcode) : (UInt8.ofNat n).toNat = n := by
  rw [maxOpcode] at h
  rw [UInt8.toNat_ofNat']
  omega

/-- The outcome of reading the fields of a row, told by what they denote. -/
theorem definition_cases (row : Row) :
    (∃ fault, row.definition = .error fault ∧ row.Blames fault) ∨
      ∃ d, row.definition = .ok d ∧ row.Defines d := by
  unfold definition
  split
  · next fault hn => exact .inl ⟨fault, rfl, .name (nameFault?_eq_some_iff.mp hn)⟩
  · next hn =>
    have name := nameFault?_eq_none_iff.mp hn
    split
    · next hc => exact .inl ⟨_, rfl, .codeNotHex name (Text.readHexBelow?_eq_none_iff.mp hc)⟩
    · next code hc =>
      obtain ⟨hcode, hlt⟩ := Text.readHexBelow?_eq_some_iff.mp hc
      split
      · next hgt => exact .inl ⟨_, rfl, .codeRange name hcode hlt hgt⟩
      · next hle =>
        rw [Nat.not_lt] at hle
        split
        · next hl =>
          exact .inl ⟨_, rfl, .lengthNotHex name hcode hle (Text.readHexBelow?_eq_none_iff.mp hl)⟩
        · next length hl =>
          obtain ⟨hlength, hbound⟩ := Text.readHexBelow?_eq_some_iff.mp hl
          split
          · next hw =>
            have hnot := Width.ofBytes?_eq_none_iff.mp hw
            exact .inl ⟨_, rfl, .lengthValue name hcode hle hlength hbound hnot⟩
          · next w hw =>
            refine .inr ⟨_, rfl, name, rfl, ?_, ?_, ?_⟩
            · rwa [toNat_opcode hle]
            · rwa [toNat_opcode hle]
            · exact Width.ofBytes?_eq_some_iff.mp hw ▸ hlength

/-- A row with something wrong is refused for it. -/
theorem Blames.definition_eq {fault : DefinitionFault} (h : row.Blames fault) :
    row.definition = .error fault := by
  cases h with
  | name hn => simp only [definition, nameFault?_eq_some_iff.mpr hn]
  | codeNotHex name hc =>
    simp only [definition, nameFault?_eq_none_iff.mpr name, Text.readHexBelow?_eq_none_iff.mpr hc]
  | codeRange name hc hlt hgt =>
    simp only [definition, nameFault?_eq_none_iff.mpr name,
      Text.readHexBelow?_eq_some_iff.mpr ⟨hc, hlt⟩, hgt, ↓reduceIte]
  | lengthNotHex name hc hle hl =>
    have hlt := hle.trans_lt (by decide : maxOpcode < 4294967296)
    simp only [definition, nameFault?_eq_none_iff.mpr name,
      Text.readHexBelow?_eq_some_iff.mpr ⟨hc, hlt⟩, hle.not_gt, ↓reduceIte,
      Text.readHexBelow?_eq_none_iff.mpr hl]
  | lengthValue name hc hle hl hbound hnot =>
    have hlt := hle.trans_lt (by decide : maxOpcode < 4294967296)
    have hw : Width.ofBytes? _ = none := Width.ofBytes?_eq_none_iff.mpr hnot
    simp only [definition, nameFault?_eq_none_iff.mpr name,
      Text.readHexBelow?_eq_some_iff.mpr ⟨hc, hlt⟩, hle.not_gt, ↓reduceIte,
      Text.readHexBelow?_eq_some_iff.mpr ⟨hl, hbound⟩, hw]

/-- A row that writes a definition is read as it. -/
theorem Defines.definition_eq {d : Definition} (h : row.Defines d) : row.definition = .ok d := by
  have hcode : d.opcode.toNat < 4294967296 := h.code_le.trans_lt (by decide)
  have hlength : d.width.bytes < 4294967296 := by cases d.width <;> decide
  have hname : nameFault? d.name = none := nameFault?_eq_none_iff.mpr (h.name_eq ▸ h.name)
  simp only [definition, ← h.name_eq, hname,
    Text.readHexBelow?_eq_some_iff.mpr ⟨h.code, hcode⟩, h.code_le.not_gt, ↓reduceIte,
    Text.readHexBelow?_eq_some_iff.mpr ⟨h.length, hlength⟩, Width.ofBytes?_bytes,
    UInt8.ofNat_toNat]

/-- A row is valid exactly when it writes a definition. -/
theorem valid_iff_exists_defines : row.Valid ↔ ∃ d, row.Defines d := by
  constructor
  · rintro ⟨name, ⟨n, hn, hcode⟩, bytes, hmem, hlength⟩
    obtain ⟨w, rfl⟩ := Width.mem_iff_exists_bytes.mp hmem
    refine ⟨⟨row.name, UInt8.ofNat n, w⟩, name, rfl, ?_, ?_, hlength⟩
    · rwa [toNat_opcode hn]
    · rwa [toNat_opcode hn]
  · rintro ⟨d, h⟩
    exact ⟨h.name, ⟨_, h.code_le, h.code⟩, _, Width.mem_iff_exists_bytes.mpr ⟨d.width, rfl⟩,
      h.length⟩

/-- A row is refused for exactly what is wrong with it. -/
theorem read_eq_error_iff {e : Error} :
    row.read = .error e ↔
      ∃ fault, row.Blames fault ∧ e = { fault := .definition fault, line := row.render } := by
  rw [read]
  rcases row.definition_cases with ⟨fault, he, hb⟩ | ⟨d, hd, hdef⟩
  · rw [he]
    constructor
    · intro h
      exact ⟨fault, hb, (Except.error.inj h).symm⟩
    · rintro ⟨other, ho, rfl⟩
      rw [Except.error.inj (he.symm.trans ho.definition_eq)]
  · rw [hd]
    simp only [reduceCtorEq, false_iff, not_exists, not_and]
    intro fault hb
    cases hd.symm.trans hb.definition_eq

/-- A row is read exactly when it writes a definition, and as that. -/
theorem read_eq_ok_iff {d : Definition} : row.read = .ok d ↔ row.Defines d := by
  rw [read]
  rcases row.definition_cases with ⟨fault, he, hb⟩ | ⟨other, hd, hdef⟩
  · rw [he]
    simp only [reduceCtorEq, false_iff]
    intro h
    cases he.symm.trans h.definition_eq
  · rw [hd]
    constructor
    · intro h
      exact Except.ok.inj h ▸ hdef
    · intro h
      rw [Except.ok.inj (hd.symm.trans h.definition_eq)]

/-- Two rows have the same name, ignoring the case of ASCII letters. -/
def SameName (a b : Row) : Prop := Text.sameName a.name b.name = true

/-- Two rows have codes that denote the same number. -/
def SameCode (a b : Row) : Prop := ∃ n, Text.IsHexNumber a.code n ∧ Text.IsHexNumber b.code n

variable {a b : Row} {d d' : Definition}

/-- Rows that write definitions agree in name when the definitions do in upper case. -/
theorem sameName_iff (ha : a.Defines d) (hb : b.Defines d') :
    a.SameName b ↔ Text.uppercase d.name = Text.uppercase d'.name := by
  have h := OpTable.sameName_eq_false_iff ha.name hb.name
  rw [SameName, ha.name_eq, hb.name_eq, ← not_iff_not, Bool.not_eq_true, h]

/-- Rows that write definitions agree in code when the definitions do in opcode. -/
theorem sameCode_iff (ha : a.Defines d) (hb : b.Defines d') :
    a.SameCode b ↔ d.opcode = d'.opcode := by
  constructor
  · rintro ⟨n, hna, hnb⟩
    apply UInt8.toNat_inj.mp
    rw [← hna.unique ha.code, ← hnb.unique hb.code]
  · intro h
    exact ⟨d.opcode.toNat, ha.code, h ▸ hb.code⟩

end Row

/-! ### Repetitions -/

/-- The first element that repeats an earlier one: those before it are all different. -/
def FirstRepeat {α : Type} (same : α → α → Prop) (xs : List α) (x : α) : Prop :=
  ∃ before after, xs = before ++ x :: after ∧ before.Pairwise (fun a b ↦ ¬ same a b) ∧
    ∃ y ∈ before, same y x

section Repetitions

variable {α β γ : Type} {same : α → α → Prop} {xs : List α} {x : α}

/-- The first element that repeats one belongs to the list. -/
theorem FirstRepeat.mem (h : FirstRepeat same xs x) : x ∈ xs := by
  obtain ⟨before, after, rfl, -⟩ := h
  simp

/-- Either some element is the first to repeat one, or all elements are different. -/
theorem exists_firstRepeat_or (same : α → α → Prop) (xs : List α) :
    (∃ x, FirstRepeat same xs x) ∨ xs.Pairwise fun a b ↦ ¬ same a b := by
  -- from the front: the last element repeats one only where nothing before it does
  induction xs using List.reverseRecOn with
  | nil => exact .inr .nil
  | append_singleton xs last ih =>
    rcases ih with ⟨x, before, after, rfl, hb, hx⟩ | hpair
    · exact .inl ⟨x, before, after ++ [last], by simp, hb, hx⟩
    · by_cases h : ∃ y ∈ xs, same y last
      · exact .inl ⟨last, xs, [], rfl, hpair, h⟩
      · refine .inr (List.pairwise_append.mpr ⟨hpair, List.pairwise_singleton _ _, ?_⟩)
        intro y hy z hz hs
        rw [List.mem_singleton] at hz
        exact h ⟨y, hy, hz ▸ hs⟩

variable [BEq β] [LawfulBEq β] {key : γ → β}

private theorem firstRepeat?_append {seen : List β} {before after : List γ} {c : γ}
    (hb : firstRepeat? key seen before = none)
    (hc : key c ∈ seen ∨ ∃ b ∈ before, key b = key c) :
    firstRepeat? key seen (before ++ c :: after) = some c := by
  induction before generalizing seen with
  | nil =>
    have hseen : key c ∈ seen := by simpa using hc
    simp [firstRepeat?, hseen]
  | cons b before ih =>
    rw [firstRepeat?] at hb
    rw [List.cons_append, firstRepeat?]
    split at hb
    · cases hb
    · next hnew =>
      rw [if_neg hnew]
      apply ih hb
      rcases hc with hc | ⟨y, hy, he⟩
      · exact .inl (List.mem_cons_of_mem _ hc)
      · rcases List.mem_cons.mp hy with rfl | hy
        · exact .inl (he ▸ List.mem_cons_self)
        · exact .inr ⟨y, hy, he⟩

variable {f : α → γ} (h : ∀ a ∈ xs, ∀ b ∈ xs, same a b ↔ key (f a) = key (f b))

include h

/-- Different elements have no repeated key. -/
theorem firstRepeat?_map_eq_none (hpair : xs.Pairwise fun a b ↦ ¬ same a b) :
    firstRepeat? key [] (xs.map f) = none := by
  rw [firstRepeat?_eq_none_iff, List.pairwise_map]
  refine ⟨by simp, hpair.imp_of_mem ?_⟩
  intro a b ha hb hne he
  exact hne ((h a ha b hb).mpr he)

/-- The first element that repeats one has the first repeated key. -/
theorem FirstRepeat.firstRepeat?_map (hx : FirstRepeat same xs x) :
    firstRepeat? key [] (xs.map f) = some (f x) := by
  obtain ⟨before, after, rfl, hpair, y, hy, hs⟩ := hx
  have hmem : ∀ a ∈ before, a ∈ before ++ x :: after := fun a ha ↦ List.mem_append_left _ ha
  have hnone : firstRepeat? key [] (before.map f) = none :=
    firstRepeat?_map_eq_none (fun a ha b hb ↦ h a (hmem a ha) b (hmem b hb)) hpair
  rw [List.map_append, List.map_cons]
  apply firstRepeat?_append hnone
  exact .inr ⟨f y, List.mem_map_of_mem hy, (h y (hmem y hy) x (by simp)).mp hs⟩

end Repetitions

/-! ### Rows together -/

namespace OpTable

/-- Valid rows of which no two agree in name or code. -/
structure Admits (rows : List Row) : Prop where
  /-- Every row is valid. -/
  valid : ∀ row ∈ rows, row.Valid
  /-- Names differ in more than the case of letters. -/
  names : rows.Pairwise fun a b ↦ ¬ a.SameName b
  /-- Codes denote different numbers. -/
  codes : rows.Pairwise fun a b ↦ ¬ a.SameCode b

/-- The error for which rows are refused. Rows that are not valid come first, then names, then
codes; within each kind the first row decides. -/
inductive Refusal (rows : List Row) : Error → Prop
  | invalid {before after : List Row} {row : Row} {fault : DefinitionFault} :
      rows = before ++ row :: after → (∀ other ∈ before, other.Valid) → row.Blames fault →
      Refusal rows { fault := .definition fault, line := row.render }
  | name {row : Row} :
      (∀ row ∈ rows, row.Valid) → FirstRepeat Row.SameName rows row →
      Refusal rows { fault := .duplicateName, line := row.name }
  | code {row : Row} {n : Nat} :
      (∀ row ∈ rows, row.Valid) → (rows.Pairwise fun a b ↦ ¬ a.SameName b) →
      FirstRepeat Row.SameCode rows row → Text.IsHexNumber row.code n →
      Refusal rows { fault := .duplicateOpcode, line := row.name ++ " " ++ Text.hex 2 n }

variable {rows : List Row}

/-- Rows are admitted or there is an error for which they are refused. -/
theorem admits_or_refusal (rows : List Row) : Admits rows ∨ ∃ e, Refusal rows e := by
  by_cases hv : ∀ row ∈ rows, row.Valid
  · rcases exists_firstRepeat_or Row.SameName rows with ⟨row, hrow⟩ | hnames
    · exact .inr ⟨_, .name hv hrow⟩
    · rcases exists_firstRepeat_or Row.SameCode rows with ⟨row, hrow⟩ | hcodes
      · obtain ⟨n, -, hn⟩ := (hv row hrow.mem).code
        exact .inr ⟨_, .code hv hnames hrow hn⟩
      · exact .inl ⟨hv, hnames, hcodes⟩
  · cases hc : collect Row.read rows with
    | error e =>
      obtain ⟨before, row, after, hs, hb, he⟩ := (collect_eq_error_iff _ _ _).mp hc
      obtain ⟨fault, hfault, -⟩ := Row.read_eq_error_iff.mp he
      refine .inr ⟨_, .invalid hs (fun other ho ↦ ?_) hfault⟩
      obtain ⟨d, hd⟩ := hb other ho
      exact Row.valid_iff_exists_defines.mpr ⟨d, Row.read_eq_ok_iff.mp hd⟩
    | ok definitions =>
      refine absurd (fun row hr ↦ ?_) hv
      have hmem := List.mem_map_of_mem (f := Row.read) hr
      rw [(collect_eq_ok_iff _ _ _).mp hc] at hmem
      obtain ⟨d, -, hd⟩ := List.mem_map.mp hmem
      exact Row.valid_iff_exists_defines.mpr ⟨d, Row.read_eq_ok_iff.mp hd.symm⟩

/-- Valid rows write definitions, and the table is what these are together. -/
theorem exists_definitions (h : ∀ row ∈ rows, row.Valid) :
    ∃ f : Row → Definition, (∀ row ∈ rows, row.Defines (f row)) ∧
      ofRows rows = distinct (rows.map f) := by
  have : Nonempty Definition := ⟨⟨"", 0, .one⟩⟩
  choose! f hf using fun row hr ↦ Row.valid_iff_exists_defines.mp (h row hr)
  refine ⟨f, hf, ?_⟩
  have hread : collect Row.read rows = .ok (rows.map f) := by
    rw [collect_eq_ok_iff, List.map_map]
    exact List.map_congr_left fun row hr ↦ Row.read_eq_ok_iff.mpr (hf row hr)
  have hcheck : collect Definition.check (rows.map f) = .ok (rows.map f) := by
    refine Definition.collect_check_eq_ok_iff.mpr ⟨rfl, ?_⟩
    intro d hd
    obtain ⟨row, hr, rfl⟩ := List.mem_map.mp hd
    have hrow := hf row hr
    exact Definition.fault?_eq_none_iff.mpr ⟨hrow.name_eq ▸ hrow.name, hrow.code_le⟩
  rw [ofRows, hread]
  simp only [ofDefinitions, hcheck]

section Defined

variable {f : Row → Definition} (hf : ∀ row ∈ rows, row.Defines (f row))

include hf

private theorem sameName_key :
    ∀ a ∈ rows, ∀ b ∈ rows,
      a.SameName b ↔ Text.uppercase (f a).name = Text.uppercase (f b).name :=
  fun a ha b hb ↦ Row.sameName_iff (hf a ha) (hf b hb)

private theorem sameCode_key :
    ∀ a ∈ rows, ∀ b ∈ rows, a.SameCode b ↔ (f a).opcode = (f b).opcode :=
  fun a ha b hb ↦ Row.sameCode_iff (hf a ha) (hf b hb)

/-- The first row that repeats a name is named by the error. -/
theorem distinct_of_name {row : Row} (h : FirstRepeat Row.SameName rows row) :
    distinct (rows.map f) = .error { fault := .duplicateName, line := row.name } := by
  have hfirst : firstRepeat? (fun d : Definition ↦ Text.uppercase d.name) [] (rows.map f) =
      some (f row) := h.firstRepeat?_map (sameName_key hf)
  simp only [distinct, hfirst, (hf row h.mem).name_eq]

private theorem names_eq_none (h : rows.Pairwise fun a b ↦ ¬ a.SameName b) :
    firstRepeat? (fun d : Definition ↦ Text.uppercase d.name) [] (rows.map f) = none :=
  firstRepeat?_map_eq_none (sameName_key hf) h

/-- Where names differ, the first row that repeats a code is named by the error. -/
theorem distinct_of_code {row : Row} {n : Nat} (hnames : rows.Pairwise fun a b ↦ ¬ a.SameName b)
    (h : FirstRepeat Row.SameCode rows row) (hn : Text.IsHexNumber row.code n) :
    distinct (rows.map f) =
      .error { fault := .duplicateOpcode, line := row.name ++ " " ++ Text.hex 2 n } := by
  have hfirst : firstRepeat? Definition.opcode [] (rows.map f) = some (f row) :=
    h.firstRepeat?_map (sameCode_key hf)
  have hrow := hf row h.mem
  simp only [distinct, names_eq_none hf hnames, hfirst, hrow.name_eq, hrow.code.unique hn]

/-- Where names and codes differ, there is a table of all definitions. -/
theorem distinct_of_pairwise (hnames : rows.Pairwise fun a b ↦ ¬ a.SameName b)
    (hcodes : rows.Pairwise fun a b ↦ ¬ a.SameCode b) :
    distinct (rows.map f) = .ok ⟨rows.map f⟩ := by
  have hnone : firstRepeat? Definition.opcode [] (rows.map f) = none :=
    firstRepeat?_map_eq_none (sameCode_key hf) hcodes
  simp only [distinct, names_eq_none hf hnames, hnone]

end Defined

/-- Rows are refused with the error that there is for them. -/
theorem Refusal.ofRows_eq {e : Error} (h : Refusal rows e) : ofRows rows = .error e := by
  cases h with
  | @invalid before after row fault hs hb hrow =>
    have hread : collect Row.read rows =
        .error { fault := .definition fault, line := row.render } := by
      refine (collect_eq_error_iff _ _ _).mpr ⟨before, row, after, hs, fun other ho ↦ ?_,
        Row.read_eq_error_iff.mpr ⟨fault, hrow, rfl⟩⟩
      obtain ⟨d, hd⟩ := Row.valid_iff_exists_defines.mp (hb other ho)
      exact ⟨d, Row.read_eq_ok_iff.mpr hd⟩
    rw [ofRows, hread]
  | name hv hrow =>
    obtain ⟨f, hf, heq⟩ := exists_definitions hv
    rw [heq, distinct_of_name hf hrow]
  | code hv hnames hrow hn =>
    obtain ⟨f, hf, heq⟩ := exists_definitions hv
    rw [heq, distinct_of_code hf hnames hrow hn]

/-- Admitted rows form the table of the definitions that they write. -/
theorem Admits.exists_table (h : Admits rows) :
    ∃ table, ofRows rows = .ok table ∧ List.Forall₂ Row.Defines rows table.definitions := by
  obtain ⟨f, hf, heq⟩ := exists_definitions h.valid
  refine ⟨⟨rows.map f⟩, ?_, ?_⟩
  · rw [heq, distinct_of_pairwise hf h.names h.codes]
  · rw [List.forall₂_map_right_iff, List.forall₂_same]
    exact hf

/-- Rows are refused exactly with the error that there is for them. -/
theorem ofRows_eq_error_iff {e : Error} : ofRows rows = .error e ↔ Refusal rows e := by
  refine ⟨fun h ↦ ?_, Refusal.ofRows_eq⟩
  rcases admits_or_refusal rows with hadmits | ⟨other, hother⟩
  · obtain ⟨table, htable, -⟩ := hadmits.exists_table
    cases h.symm.trans htable
  · rwa [Except.error.inj (h.symm.trans hother.ofRows_eq)]

/-- Rows that form a table are admitted. -/
theorem admits_of_ofRows {table : OpTable} (h : ofRows rows = .ok table) : Admits rows := by
  rcases admits_or_refusal rows with hadmits | ⟨e, he⟩
  · exact hadmits
  · cases h.symm.trans he.ofRows_eq

/-- A name is found in a well-formed table only where it is defined once. -/
theorem WellFormed.filter_sameName {table : OpTable} (h : table.WellFormed) {name : String}
    {d : Definition} (hfind : table.find? name = some d) :
    table.definitions.filter (fun other ↦ Text.sameName other.name name) = [d] := by
  obtain ⟨hd, before, after, hs, hb⟩ := List.find?_eq_some_iff_append.mp hfind
  have hdiffer := h.names_differ
  rw [hs, List.pairwise_append, List.pairwise_cons] at hdiffer
  have hbefore : before.filter (fun other ↦ Text.sameName other.name name) = [] := by
    rw [List.filter_eq_nil_iff]
    intro other ho
    simpa using hb other ho
  have hafter : after.filter (fun other ↦ Text.sameName other.name name) = [] := by
    rw [List.filter_eq_nil_iff]
    intro other ho hsame
    -- another definition of the name would have the name of the first
    have hkey : Text.sameName d.name other.name = true := by
      rw [Text.sameName_iff] at hd hsame ⊢
      rw [hd, hsame]
    rw [hdiffer.2.1.1 other ho] at hkey
    cases hkey
  rw [hs, List.filter_append, List.filter_cons, if_pos hd, hbefore, hafter, List.nil_append]

/-- Rows form a table exactly when each is valid and no two agree in name, ignoring case, or in the
number of their code. Otherwise the error is that of the first invalid row, else of the first
repeated name, else of the first repeated code. The table holds the definitions that the rows write,
in their order; a name is found in it exactly when it is defined, and is then defined once. -/
theorem table_validation_exact (rows : List Row) :
    ((∃ table, ofRows rows = .ok table) ↔ Admits rows) ∧
      (∀ e, ofRows rows = .error e ↔ Refusal rows e) ∧
      ∀ table, ofRows rows = .ok table →
        List.Forall₂ Row.Defines rows table.definitions ∧
        ∀ name,
          ((∃ d, table.find? name = some d) ↔
            ∃ d ∈ table.definitions, Text.sameName d.name name = true) ∧
          ∀ d, table.find? name = some d →
            table.definitions.filter (fun other ↦ Text.sameName other.name name) = [d] := by
  refine ⟨⟨fun ⟨table, h⟩ ↦ admits_of_ofRows h, fun h ↦ ?_⟩, fun e ↦ ofRows_eq_error_iff, ?_⟩
  · obtain ⟨table, htable, -⟩ := h.exists_table
    exact ⟨table, htable⟩
  · intro table h
    have hw : table.WellFormed := (Accepted.ofRows h).wellFormed
    obtain ⟨other, hother, hdefines⟩ := (admits_of_ofRows h).exists_table
    obtain rfl := Except.ok.inj (h.symm.trans hother)
    refine ⟨hdefines, fun name ↦ ⟨?_, fun d ↦ hw.filter_sameName⟩⟩
    rw [← Option.isSome_iff_exists, find?, List.find?_isSome]

/-- Rows with a sign and with leading zeros in their fields form a table in which a name of another
case is found; a name that only differs in case from an earlier one is refused. -/
theorem table_validation_exact_sample :
    (∃ table, ofRows [⟨"Jmp", "+01", "4"⟩, ⟨"ADD", "3f", "02"⟩] = .ok table ∧
      Admits [⟨"Jmp", "+01", "4"⟩, ⟨"ADD", "3f", "02"⟩] ∧
      table.definitions.filter (fun other ↦ Text.sameName other.name "jMP") =
        [⟨"Jmp", 1, .four⟩]) ∧
      Refusal [⟨"Jmp", "+01", "4"⟩, ⟨"JMP", "1", "4"⟩]
        { fault := .duplicateName, line := "JMP" } := by
  have htable : ofRows [⟨"Jmp", "+01", "4"⟩, ⟨"ADD", "3f", "02"⟩] =
      .ok ⟨[⟨"Jmp", 1, .four⟩, ⟨"ADD", 63, .two⟩]⟩ := by decide +kernel
  have hsame : Text.sameName "Jmp" "jMP" = true := by
    rw [Text.sameName_iff]
    apply String.toList_inj.mp
    rw [Text.toList_nameKey, Text.toList_nameKey]
    decide
  have hfound : find? ⟨[⟨"Jmp", 1, .four⟩, ⟨"ADD", 63, .two⟩]⟩ "jMP" = some ⟨"Jmp", 1, .four⟩ :=
    List.find?_cons_of_pos hsame
  have hrepeat : ofRows [⟨"Jmp", "+01", "4"⟩, ⟨"JMP", "1", "4"⟩] =
      .error { fault := .duplicateName, line := "JMP" } := by decide +kernel
  have hrows := table_validation_exact [⟨"Jmp", "+01", "4"⟩, ⟨"ADD", "3f", "02"⟩]
  have hagain := table_validation_exact [⟨"Jmp", "+01", "4"⟩, ⟨"JMP", "1", "4"⟩]
  have hlookup := hrows.2.2 _ htable
  refine ⟨⟨_, htable, hrows.1.mp ⟨_, htable⟩, ?_⟩, (hagain.2.1 _).mp hrepeat⟩
  exact (hlookup.2 "jMP").2 _ hfound

end OpTable

/-! ### Typed definitions -/

/-- The row of a definition is refused for what is wrong with the definition, in the same words. -/
theorem Definition.read_row_eq_check (d : Definition) : d.row.read = d.check := by
  have hname : d.row.name = d.name := rfl
  have hrender : d.row.render = d.render := rfl
  cases hn : nameFault? d.name with
  | some fault =>
    simp only [Row.read, Row.definition, check, fault?, hname, hn, hrender]
  | none =>
    by_cases ho : d.opcode.toNat ≤ maxOpcode
    · rw [read_row (nameFault?_eq_none_iff.mp hn) ho]
      simp only [check, fault?, hn, ho.not_gt, ↓reduceIte]
    · have hcode : Text.readHexBelow? 4294967296 d.row.code = some d.opcode.toNat := by
        have := d.opcode.toNat_lt
        exact Text.readHexBelow?_hex 2 (by omega)
      simp only [Row.read, Row.definition, check, fault?, hname, hn, hrender, hcode,
        Nat.lt_of_not_le ho, ↓reduceIte]

/-- Collecting over mapped elements applies the map first. -/
theorem collect_map {α β γ : Type} (f : β → Except Error γ) (g : α → β) (as : List α) :
    collect f (as.map g) = collect (fun a ↦ f (g a)) as := by
  induction as with
  | nil => rfl
  | cons a as ih => rw [List.map_cons, collect, collect, ih]

/-- Typed definitions and the rows in which they are written have the same outcome: the same table,
or the same fault at the same line text. -/
theorem OpTable.typed_and_written_tables_agree (definitions : List Definition) :
    ofRows (definitions.map Definition.row) = ofDefinitions definitions := by
  have hread : collect Row.read (definitions.map Definition.row) =
      collect Definition.check definitions := by
    rw [collect_map]
    exact congrArg (collect · definitions) (funext Definition.read_row_eq_check)
  rw [ofRows, hread]
  cases hc : collect Definition.check definitions with
  | error e => simp only [ofDefinitions, hc]
  | ok checked =>
    obtain ⟨rfl, -⟩ := Definition.collect_check_eq_ok_iff.mp hc
    rfl

end SicXe
