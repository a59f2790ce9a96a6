import SicXe.Text.Case
import SicXe.Text.Numeral

/-!
# Symbol tables

A symbol table holds the labels of a program in the order of their definition, with their
addresses. Looking a label up ignores the case of ASCII letters and finds the first match
(`SPEC_FULL.md` §§3/10.8).
-/

namespace SicXe

/-- A label with its address. -/
structure Symbol where
  /-- The label. -/
  name : String
  /-- The address at which the label stands. -/
  address : Nat
  deriving DecidableEq, Repr

/-- Labels with their addresses, in order of definition. -/
structure SymbolTable where
  /-- The defined labels, first to last. -/
  entries : List Symbol
  deriving DecidableEq, Repr

namespace Symbol

/-- A label and its address in hexadecimal. -/
def render (s : Symbol) : String :=
  s.name ++ " " ++ Text.hex 6 s.address

end Symbol

namespace SymbolTable

/-- The table without labels. -/
def empty : SymbolTable := { entries := [] }

/-- The first entry of a name, ignoring the case of ASCII letters. -/
def find? (table : SymbolTable) (name : String) : Option Symbol :=
  let key := Text.nameKey name
  table.entries.find? fun entry ↦ Text.nameKey entry.name == key

/-- A table contains the names that it defines. -/
def contains (table : SymbolTable) (name : String) : Bool :=
  (table.find? name).isSome

/-- A label is added after all others. -/
def insert (table : SymbolTable) (name : String) (address : Nat) : SymbolTable :=
  { entries := table.entries ++ [⟨name, address⟩] }

/-- Looking up compares names one by one. -/
theorem find?_eq (table : SymbolTable) (name : String) :
    table.find? name = table.entries.find? fun entry ↦ Text.sameName entry.name name := rfl

/-- A name is not found exactly when no entry has it. -/
theorem find?_eq_none_iff {table : SymbolTable} {name : String} :
    table.find? name = none ↔
      ∀ entry ∈ table.entries, Text.sameName entry.name name = false := by
  rw [find?_eq, List.find?_eq_none]
  simp only [Bool.not_eq_true]

/-- The entry that stands for a name: no entry before it has the name, ignoring the case of ASCII
letters. -/
def IsFirst (table : SymbolTable) (name : String) (entry : Symbol) : Prop :=
  ∃ before after, table.entries = before ++ entry :: after ∧
    Text.sameName entry.name name = true ∧
    ∀ other ∈ before, Text.sameName other.name name = false

/-- A name is looked up as its first entry. -/
theorem find?_eq_some_iff {table : SymbolTable} {name : String} {entry : Symbol} :
    table.find? name = some entry ↔ table.IsFirst name entry := by
  rw [find?_eq, List.find?_eq_some_iff_append, IsFirst]
  simp only [Bool.not_eq_eq_eq_not, Bool.not_true]
  constructor
  · rintro ⟨he, before, after, hs, hb⟩
    exact ⟨before, after, hs, he, hb⟩
  · rintro ⟨before, after, hs, he, hb⟩
    exact ⟨he, before, after, hs, hb⟩

/-- A table does not contain a name exactly when no entry has it. -/
theorem contains_eq_false_iff {table : SymbolTable} {name : String} :
    table.contains name = false ↔
      ∀ entry ∈ table.entries, Text.sameName entry.name name = false := by
  rw [contains, Option.isSome_eq_false_iff, Option.isNone_iff_eq_none, find?_eq_none_iff]

/-- Inserting adds one entry at the end. -/
@[simp] theorem entries_insert (table : SymbolTable) (name : String) (address : Nat) :
    (table.insert name address).entries = table.entries ++ [⟨name, address⟩] := rfl

end SymbolTable

end SicXe
