import SicXe.Text.Case
import SicXe.Text.Numeral

/-!
# Literals

A byte string is written `C"…"` with ASCII characters or `X"…"` with an even number of hexadecimal
digits; the letter may have either case and the contents are never empty (`BYTE` of `SPEC_FULL.md`
§4.4).
-/

namespace SicXe.Literal

/-- The characters between the quotes of a token of the form `mark"…"`. -/
def contents? (mark : Char) (token : String) : Option (List Char) :=
  match token.toList with
  | letter :: quote :: cs =>
    if letter.toUpper == mark && quote == '"' && cs.getLast? == some '"' then some cs.dropLast
    else none
  | _ => none

/-- The characters of a character literal. -/
def characters? (token : String) : Option (List Char) :=
  (contents? 'C' token).filter fun cs ↦ !cs.isEmpty && cs.all Text.isAscii

/-- The digits of a hexadecimal literal. -/
def digits? (token : String) : Option (List Char) :=
  (contents? 'X' token).filter fun cs ↦
    !cs.isEmpty && cs.length % 2 == 0 && cs.all Text.isHexDigit

/-- The contents stand between a letter with a quote and a quote. -/
theorem toList_eq_of_contents? {mark : Char} {token : String} {cs : List Char}
    (h : contents? mark token = some cs) :
    ∃ letter, letter.toUpper = mark ∧ token.toList = letter :: '"' :: (cs ++ ['"']) := by
  unfold contents? at h
  split at h
  · rename_i letter quote rest heq
    split at h
    · rename_i hc
      simp only [Bool.and_eq_true, beq_iff_eq] at hc
      obtain ⟨⟨hmark, rfl⟩, hlast⟩ := hc
      obtain ⟨body, rfl⟩ := List.getLast?_eq_some_iff.mp hlast
      simp only [List.dropLast_concat, Option.some.injEq] at h
      subst h
      exact ⟨letter, hmark, heq⟩
    · simp at h
  · simp at h

/-- A token of the form `mark"…"` has the contents between its quotes. -/
theorem contents?_of_toList_eq {mark letter : Char} {token : String} {cs : List Char}
    (hm : letter.toUpper = mark) (h : token.toList = letter :: '"' :: (cs ++ ['"'])) :
    contents? mark token = some cs := by
  simp [contents?, h, hm]

end SicXe.Literal
