/-!
# Lines and lengths of text

A line feed ends a line, and a carriage return right before it belongs to the line end. What
follows the last line feed is a line of its own that keeps all of its characters.
-/

namespace SicXe.Text

/-- The lines that a line feed ends, without it, and what follows the last line feed. -/
def splitLines : List Char → List (List Char) × List Char
  | [] => ([], [])
  | c :: cs =>
    let (ended, rest) := splitLines cs
    if c = '\n' then ([] :: ended, rest)
    else
      match ended with
      | [] => ([], c :: rest)
      | line :: others => ((c :: line) :: others, rest)

/-- A line without the carriage return at its end, if it has one. -/
def dropReturn (line : List Char) : List Char :=
  if line.getLast? = some '\r' then line.dropLast else line

/-- The lines of a text, in order. -/
def lines (cs : List Char) : List (List Char) :=
  (splitLines cs).1.map dropReturn ++ [(splitLines cs).2]

/-- Texts joined into one, a line each. -/
def joinLines (texts : List String) : String :=
  "\n".intercalate texts

/-- The number of bytes of a text in UTF-8. -/
def byteLength (s : String) : Nat :=
  s.toList.foldr (fun c n ↦ c.utf8Size + n) 0

/-- A line feed ends exactly the characters before it. -/
theorem splitLines_append (line cs : List Char) (h : '\n' ∉ line) :
    splitLines (line ++ '\n' :: cs) = (line :: (splitLines cs).1, (splitLines cs).2) := by
  induction line with
  | nil => simp [splitLines]
  | cons c line ih =>
    simp only [List.mem_cons, not_or] at h
    simp only [List.cons_append, splitLines, ih h.2, Ne.symm h.1, ↓reduceIte]

/-- A text without a line feed is one unfinished line. -/
theorem splitLines_of_not_mem (cs : List Char) (h : '\n' ∉ cs) : splitLines cs = ([], cs) := by
  induction cs with
  | nil => rfl
  | cons c cs ih =>
    simp only [List.mem_cons, not_or] at h
    simp only [splitLines, ih h.2, Ne.symm h.1, ↓reduceIte]

end SicXe.Text
