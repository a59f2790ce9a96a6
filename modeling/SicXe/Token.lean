import SicXe.Text.Blank
import SicXe.Text.Lines

/-!
# Tokens

A line of source is scanned from left to right. Where a letter `C` or `X` of either case and a
quote stand at the start of a token and a closing quote follows, everything up to that quote is
one literal token, blanks included, and the next token may follow at once. Any other token is a
longest run of characters that are not blank. Scanning never fails. This is the tokenizer of
`SPEC_FULL.md` §4.1.
-/

namespace SicXe.Token

/-- The letters that open a literal. -/
def opensLiteral (c : Char) : Bool :=
  c == 'C' || c == 'c' || c == 'X' || c == 'x'

/-- The literal at the start of the characters and what follows its closing quote. -/
def splitLiteral? : List Char → Option (List Char × List Char)
  | mark :: quote :: cs =>
    if opensLiteral mark && quote == '"' then
      match cs.dropWhile (· != '"') with
      | [] => none
      | close :: rest => some (mark :: quote :: (cs.takeWhile (· != '"') ++ [close]), rest)
    else none
  | _ => none

/-- The longest run of characters at the start that are not blank, and the rest. -/
def splitPlain (cs : List Char) : List Char × List Char :=
  (cs.takeWhile fun c ↦ !Text.isBlank c, cs.dropWhile fun c ↦ !Text.isBlank c)

/-- The token at the start of the characters, a literal if there is one, and the rest. -/
def split (cs : List Char) : List Char × List Char :=
  (splitLiteral? cs).getD (splitPlain cs)

/-- Nothing is lost when a literal is split off. -/
theorem append_of_splitLiteral? {cs token rest : List Char}
    (h : splitLiteral? cs = some (token, rest)) : token ++ rest = cs := by
  match cs with
  | [] => simp [splitLiteral?] at h
  | [_] => simp [splitLiteral?] at h
  | mark :: quote :: cs =>
    simp only [splitLiteral?] at h
    split at h
    · split at h
      · simp at h
      · rename_i close others heq
        simp only [Option.some.injEq, Prod.mk.injEq] at h
        obtain ⟨rfl, rfl⟩ := h
        have whole := List.takeWhile_append_dropWhile (p := (· != '"')) (l := cs)
        rw [heq] at whole
        simpa using whole
    · simp at h

/-- Nothing is lost when a token is split off. -/
theorem split_append (cs : List Char) : (split cs).1 ++ (split cs).2 = cs := by
  unfold split
  cases h : splitLiteral? cs with
  | none => exact List.takeWhile_append_dropWhile
  | some parts => exact append_of_splitLiteral? h

/-- A token split off before a character that is not blank has characters. -/
theorem split_fst_ne_nil {c : Char} (cs : List Char) (h : Text.isBlank c = false) :
    (split (c :: cs)).1 ≠ [] := by
  unfold split
  cases hl : splitLiteral? (c :: cs) with
  | none => simp [splitPlain, h]
  | some parts =>
    obtain ⟨token, rest⟩ := parts
    intro hnil
    simp only [Option.getD_some] at hnil
    subst hnil
    cases cs with
    | nil => simp [splitLiteral?] at hl
    | cons d ds =>
      simp only [splitLiteral?] at hl
      split at hl
      · split at hl <;> simp at hl
      · simp at hl

/-- What follows a token is shorter than what it was split from. -/
theorem length_split_snd_lt {c : Char} (cs : List Char) (h : Text.isBlank c = false) :
    (split (c :: cs)).2.length < (c :: cs).length := by
  have whole := congrArg List.length (split_append (c :: cs))
  have nonempty := List.length_pos_iff.mpr (split_fst_ne_nil cs h)
  simp only [List.length_append] at whole
  omega

/-- The tokens of a line, in order. -/
def scan : List Char → List (List Char)
  | [] => []
  | c :: cs =>
    if _h : Text.isBlank c = true then scan cs
    else (split (c :: cs)).1 :: scan (split (c :: cs)).2
termination_by cs => cs.length
decreasing_by
  · simp
  · exact length_split_snd_lt cs (by simpa using _h)

/-- The tokens of one line of text. -/
def ofLine (line : String) : List String :=
  (scan line.toList).map String.ofList

/-- The tokens of each line of a text that has any: `tokenize` of `SPEC_FULL.md` §4.1. -/
def ofText (text : String) : List (List String) :=
  ((Text.lines text.toList).map fun line ↦ (scan line).map String.ofList).filter
    fun tokens ↦ !tokens.isEmpty

/-- Tokens joined by single spaces, as messages show a line (`SPEC_FULL.md` §10.2). -/
def join (tokens : List String) : String :=
  " ".intercalate tokens

/-- A blank line has no tokens. -/
@[simp] theorem scan_nil : scan [] = [] := by
  rw [scan]

/-- A blank before a token is skipped. -/
theorem scan_blank {c : Char} (cs : List Char) (h : Text.isBlank c = true) :
    scan (c :: cs) = scan cs := by
  rw [scan, dif_pos h]

/-- At a character that is not blank a token is split off. -/
theorem scan_token {c : Char} (cs : List Char) (h : Text.isBlank c = false) :
    scan (c :: cs) = (split (c :: cs)).1 :: scan (split (c :: cs)).2 := by
  rw [scan, dif_neg (by simp [h])]

end SicXe.Token
