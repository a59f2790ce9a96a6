import SicXe.Text.CaseTable

/-!
# Letter case

Two notions of case meet in an assembler. Names are looked up without regard to the case of the
ASCII letters (`sameName`), while labels, mnemonics and hexadecimal literals are stored in the
full upper-case form of their text (`uppercase`). On ASCII text the two agree.
-/

namespace SicXe.Text

/-- The characters of ASCII are the code points below 128. -/
def isAscii (c : Char) : Bool := c.toNat < 128

/-- The upper-case form of one character; an ASCII character has a form of one character. -/
def upper (c : Char) : List Char :=
  if isAscii c then [c.toUpper]
  else
    match caseExpansions.find? fun entry ↦ entry.1 == c.toNat with
    | some (_, form) => form.map Char.ofNat
    | none =>
      match caseRuns.find? fun run ↦ run.covers c.toNat with
      | some run => [Char.ofNat (run.image c.toNat)]
      | none => [c]

/-- The upper-case form of a text, character by character. -/
def uppercase (s : String) : String :=
  String.ofList (s.toList.flatMap upper)

/-- A name with its ASCII letters in upper case and all else untouched. -/
def nameKey (s : String) : String :=
  s.map Char.toUpper

/-- Two names are the same when they differ at most in the case of ASCII letters. -/
def sameName (a b : String) : Bool :=
  nameKey a == nameKey b

/-- Upper-case forms of texts are read character by character. -/
@[simp] theorem toList_uppercase (s : String) :
    (uppercase s).toList = s.toList.flatMap upper := by
  simp only [uppercase, String.toList_ofList]

/-- An ASCII character has a single upper-case character. -/
theorem upper_of_isAscii {c : Char} (h : isAscii c = true) : upper c = [c.toUpper] := by
  simp only [upper, h, ↓reduceIte]

/-- A key is read character by character. -/
@[simp] theorem toList_nameKey (s : String) : (nameKey s).toList = s.toList.map Char.toUpper := by
  simp only [nameKey, String.toList_map]

/-- On ASCII text the full upper-case form only changes the ASCII letters. -/
theorem uppercase_of_ascii {s : String} (h : ∀ c ∈ s.toList, isAscii c = true) :
    uppercase s = nameKey s := by
  apply String.toList_inj.mp
  rw [toList_uppercase, toList_nameKey]
  generalize s.toList = cs at h
  induction cs with
  | nil => rfl
  | cons c cs ih =>
    rw [List.flatMap_cons, upper_of_isAscii (h c List.mem_cons_self),
      ih fun d hd ↦ h d (List.mem_cons_of_mem c hd)]
    rfl

/-- Names are the same exactly when their keys are equal. -/
theorem sameName_iff (a b : String) : sameName a b = true ↔ nameKey a = nameKey b := by
  simp only [sameName, beq_iff_eq]

end SicXe.Text
