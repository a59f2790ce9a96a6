import SicXe.OpTable
import SicXe.Proofs.Spelling

/-!
# Accepted instruction tables

A table that definitions or rows form holds what it was given, unchanged: names of letters and
digits that differ in more than the case of letters, and different opcodes of six bits. Definitions
form a table exactly when these rules hold of them.
-/

namespace SicXe

/-! ### Names -/

/-- A Latin letter followed by Latin letters and digits. -/
def IsInstructionName (name : String) : Prop :=
  ∃ c cs, name.toList = c :: cs ∧ c.isAlpha = true ∧ ∀ d ∈ cs, d.isAlphanum = true

/-- The name of an instruction is an identifier without underscores. -/
theorem IsInstructionName.isIdentifier {name : String} (h : IsInstructionName name) :
    IsIdentifier name := by
  obtain ⟨c, cs, he, hc, hcs⟩ := h
  refine ⟨c, cs, he, hc, fun d hd ↦ ?_⟩
  rw [isNameCharacter, hcs d hd, Bool.true_or]

/-- Nothing is wrong with a name exactly when it is spelled as one. -/
theorem nameFault?_eq_none_iff {name : String} :
    nameFault? name = none ↔ IsInstructionName name := by
  rw [nameFault?, IsInstructionName]
  cases name.toList with
  | nil => simp
  | cons c cs =>
    by_cases hc : c.isAlpha = true
    · simp [hc, and_assoc]
    · simp [hc]

/-! ### Definitions one by one -/

namespace Definition

/-- Nothing is wrong with a definition exactly when its name is spelled as one and its opcode has
six bits. -/
theorem fault?_eq_none_iff {d : Definition} :
    d.fault? = none ↔ IsInstructionName d.name ∧ d.opcode.toNat ≤ maxOpcode := by
  rw [fault?, ← nameFault?_eq_none_iff]
  cases nameFault? d.name with
  | some fault => simp
  | none => simp

/-- Checking a definition keeps it. -/
theorem check_eq_ok_iff {d checked : Definition} :
    d.check = .ok checked ↔ d = checked ∧ d.fault? = none := by
  rw [check]
  cases d.fault? with
  | some fault => simp
  | none => simp

/-- Checking definitions keeps all of them. -/
theorem collect_check_eq_ok_iff {definitions checked : List Definition} :
    collect check definitions = .ok checked ↔
      definitions = checked ∧ ∀ d ∈ definitions, d.fault? = none := by
  rw [collect_eq_ok_iff]
  induction definitions generalizing checked with
  | nil => cases checked <;> simp
  | cons d rest ih =>
    cases checked with
    | nil => simp
    | cons other others =>
      rw [List.map_cons, List.map_cons, List.cons.injEq, check_eq_ok_iff, ih, List.cons.injEq,
        List.forall_mem_cons]
      tauto

end Definition

/-! ### Definitions together -/

/-- No key is found twice exactly when none was seen before and all are different. -/
theorem firstRepeat?_eq_none_iff {α β : Type} [BEq β] [LawfulBEq β] (key : α → β)
    (seen : List β) (xs : List α) :
    firstRepeat? key seen xs = none ↔
      (∀ x ∈ xs, key x ∉ seen) ∧ xs.Pairwise fun a b ↦ key a ≠ key b := by
  induction xs generalizing seen with
  | nil => simp [firstRepeat?]
  | cons x xs ih =>
    rw [firstRepeat?, List.forall_mem_cons, List.pairwise_cons]
    by_cases hx : key x ∈ seen
    · simp [hx]
    · simp only [List.contains_iff_mem, hx, ↓reduceIte, ih, List.mem_cons, not_or, forall_and]
      simp only [ne_comm (a := key x)]
      tauto

/-- Where keys are different, an element is found by its key. -/
theorem find?_key_of_mem {α β : Type} [BEq β] [LawfulBEq β] (key : α → β) {xs : List α}
    (h : xs.Pairwise fun a b ↦ key a ≠ key b) {x : α} (hx : x ∈ xs) :
    xs.find? (fun a ↦ key a == key x) = some x := by
  cases hf : xs.find? fun a ↦ key a == key x with
  | none => simpa using List.find?_eq_none.mp hf x hx
  | some other =>
    have hkey : key other = key x := by simpa using List.find?_some hf
    rw [List.inj_on_of_nodup_map (List.pairwise_map.mpr h) (List.mem_of_find?_eq_some hf) hx hkey]

namespace OpTable

/-- What holds of every table that an assembler can use. -/
structure WellFormed (table : OpTable) : Prop where
  /-- Every name is spelled as one. -/
  names : ∀ d ∈ table.definitions, IsInstructionName d.name
  /-- Names differ in more than the case of letters. -/
  names_differ : table.definitions.Pairwise fun a b ↦ Text.sameName a.name b.name = false
  /-- Opcodes differ. -/
  opcodes_differ : table.definitions.Pairwise fun a b ↦ a.opcode ≠ b.opcode
  /-- Every opcode has six bits. -/
  opcodes_le : ∀ d ∈ table.definitions, d.opcode.toNat ≤ maxOpcode

private theorem distinct_eq_ok_iff {definitions : List Definition} {table : OpTable} :
    distinct definitions = .ok table ↔ table = ⟨definitions⟩ ∧
      (definitions.Pairwise fun a b ↦ Text.uppercase a.name ≠ Text.uppercase b.name) ∧
      definitions.Pairwise fun a b ↦ a.opcode ≠ b.opcode := by
  have hnames :=
    firstRepeat?_eq_none_iff (fun d : Definition ↦ Text.uppercase d.name) [] definitions
  have hcodes := firstRepeat?_eq_none_iff Definition.opcode [] definitions
  simp only [List.not_mem_nil, not_false_eq_true, implies_true, true_and] at hnames hcodes
  rw [distinct, ← hnames, ← hcodes]
  cases firstRepeat? (fun d : Definition ↦ Text.uppercase d.name) [] definitions with
  | some d => simp
  | none =>
    cases firstRepeat? Definition.opcode [] definitions with
    | some d => simp
    | none => simp [eq_comm]

/-- On names the full upper-case form tells apart what the look-up tells apart. -/
theorem sameName_eq_false_iff {a b : String} (ha : IsInstructionName a)
    (hb : IsInstructionName b) :
    Text.sameName a b = false ↔ Text.uppercase a ≠ Text.uppercase b := by
  rw [Text.uppercase_of_ascii ha.isIdentifier.isAscii,
    Text.uppercase_of_ascii hb.isIdentifier.isAscii, ne_eq, ← Text.sameName_iff,
    Bool.not_eq_true]

/-- Definitions form a table exactly when they are right one by one and together, and the table
holds them as they are. -/
theorem ofDefinitions_eq_ok_iff {definitions : List Definition} {table : OpTable} :
    ofDefinitions definitions = .ok table ↔ table = ⟨definitions⟩ ∧ table.WellFormed := by
  rw [ofDefinitions]
  cases hc : collect Definition.check definitions with
  | error e =>
    simp only [reduceCtorEq, false_iff, not_and]
    rintro rfl hw
    have hok : collect Definition.check definitions = .ok definitions :=
      Definition.collect_check_eq_ok_iff.mpr
        ⟨rfl, fun d hd ↦ Definition.fault?_eq_none_iff.mpr ⟨hw.names d hd, hw.opcodes_le d hd⟩⟩
    rw [hc] at hok
    cases hok
  | ok checked =>
    obtain ⟨rfl, hfault⟩ := Definition.collect_check_eq_ok_iff.mp hc
    simp only [Definition.fault?_eq_none_iff, forall_and] at hfault
    have hpairs := List.Pairwise.iff_of_mem fun {a b : Definition} ha hb ↦
      (sameName_eq_false_iff (hfault.1 a ha) (hfault.1 b hb)).symm
    rw [distinct_eq_ok_iff, hpairs]
    constructor
    · rintro ⟨rfl, hnames, hcodes⟩
      exact ⟨rfl, hfault.1, hnames, hcodes, hfault.2⟩
    · rintro ⟨rfl, hw⟩
      exact ⟨rfl, hw.names_differ, hw.opcodes_differ⟩

/-- The tables that an assembler can use: the standard one and those that definitions or rows
form. -/
inductive Accepted : OpTable → Prop
  | standard : Accepted .standard
  | ofDefinitions {definitions : List Definition} {table : OpTable} :
      OpTable.ofDefinitions definitions = .ok table → Accepted table
  | ofRows {rows : List Row} {table : OpTable} : OpTable.ofRows rows = .ok table → Accepted table

/-- The standard table is well formed. -/
theorem wellFormed_standard : standard.WellFormed where
  names := by
    simp only [← nameFault?_eq_none_iff]
    decide +kernel
  names_differ := by decide +kernel
  opcodes_differ := by decide
  opcodes_le := by decide

/-- Every table that an assembler can use is well formed. -/
theorem Accepted.wellFormed {table : OpTable} (h : table.Accepted) : table.WellFormed := by
  cases h with
  | standard => exact wellFormed_standard
  | ofDefinitions h => exact (ofDefinitions_eq_ok_iff.mp h).2
  | ofRows h =>
    rw [OpTable.ofRows] at h
    split at h
    · cases h
    · exact (ofDefinitions_eq_ok_iff.mp h).2

/-- The opcodes of an accepted table fit in six bits. -/
theorem Accepted.opcode_le {table : OpTable} (h : table.Accepted) :
    ∀ d ∈ table.definitions, d.opcode.toNat ≤ maxOpcode :=
  h.wellFormed.opcodes_le

end OpTable

end SicXe
