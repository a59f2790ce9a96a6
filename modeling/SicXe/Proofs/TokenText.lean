import Mathlib
import SicXe.Token

/-!
# Token lines as text

A token is a literal or a run of characters that are not blank. A token line is *spaced* when it
can be read back from its tokens with single spaces between them; the only obstacle is a token
that opens a literal which a later quote would close. Scanning yields spaced lines, and lines that
are spaced and hold no line feed are recovered from their joined text, however many there are and
whether or not a carriage return stands before each line feed.
-/

namespace SicXe.Token

/-- A literal: its letter and a quote, characters other than quotes, and the closing quote. -/
def IsLiteral (token : List Char) : Prop :=
  ∃ mark body, opensLiteral mark = true ∧ '"' ∉ body ∧ token = mark :: '"' :: (body ++ ['"'])

/-- A plain token has characters, none of which is blank. -/
def IsPlain (token : List Char) : Prop :=
  token ≠ [] ∧ ∀ c ∈ token, Text.isBlank c = false

/-- The first two characters are those of a literal. -/
def Opens (token : List Char) : Prop :=
  ∃ mark body, opensLiteral mark = true ∧ token = mark :: '"' :: body

/-- A token line that its text with single spaces determines: a plain token may begin like a
literal only if no quote follows in the line. -/
def Spaced : List (List Char) → Prop
  | [] => True
  | token :: rest =>
    (IsLiteral token ∨
      IsPlain token ∧ (Opens token → '"' ∉ token.drop 2 ∧ ∀ other ∈ rest, '"' ∉ other)) ∧
    Spaced rest

/-- A line of tokens that stands as one line of a text. -/
structure IsLine (tokens : List String) : Prop where
  ne_nil : tokens ≠ []
  spaced : Spaced (tokens.map String.toList)
  oneLine : ∀ token ∈ tokens, '\n' ∉ token.toList

/-- What follows the first two characters of a token that begins like a literal. -/
theorem Opens.drop_append {token : List Char} (h : Opens token) (rest : List Char) :
    (token ++ rest).drop 2 = token.drop 2 ++ rest := by
  obtain ⟨mark, body, -, rfl⟩ := h
  rfl

/-! ### Splitting a token off -/

/-- A literal is split off whatever follows it. -/
theorem split_literal_append {token : List Char} (h : IsLiteral token) (rest : List Char) :
    split (token ++ rest) = (token, rest) := by
  obtain ⟨mark, body, hm, hb, rfl⟩ := h
  have inner : ∀ c ∈ body, (c != '"') = true := by
    intro c hc
    simp only [bne_iff_ne, ne_eq]
    rintro rfl
    exact hb hc
  have hd : (body ++ '"' :: rest).dropWhile (· != '"') = '"' :: rest := by
    rw [List.dropWhile_append_of_pos inner]
    simp
  have ht : (body ++ '"' :: rest).takeWhile (· != '"') = body := by
    rw [List.takeWhile_append_of_pos inner]
    simp
  simp [split, splitLiteral?, hm, hd, ht]

/-- No literal is split off unless the characters begin like one and a quote follows. -/
theorem splitLiteral?_eq_none {cs : List Char} (h : Opens cs → '"' ∉ cs.drop 2) :
    splitLiteral? cs = none := by
  match cs with
  | [] => rfl
  | [_] => rfl
  | mark :: quote :: cs =>
    simp only [splitLiteral?]
    split
    · next hc =>
      simp only [Bool.and_eq_true, beq_iff_eq] at hc
      obtain ⟨hm, rfl⟩ := hc
      have hq : '"' ∉ cs := h ⟨mark, cs, hm, rfl⟩
      have hd : cs.dropWhile (· != '"') = [] := by
        rw [List.dropWhile_eq_nil_iff]
        intro c hc
        simp only [bne_iff_ne, ne_eq]
        rintro rfl
        exact hq hc
      rw [hd]
    · rfl

/-- A plain token is split off before a blank or the end, if it does not begin a literal that is
closed later. -/
theorem split_plain_append {token rest : List Char} (h : IsPlain token)
    (hq : Opens token → '"' ∉ token.drop 2 ∧ '"' ∉ rest)
    (hr : ∀ c ∈ rest.head?, Text.isBlank c = true) :
    split (token ++ rest) = (token, rest) := by
  obtain ⟨hn, hb⟩ := h
  have none : splitLiteral? (token ++ rest) = none := by
    apply splitLiteral?_eq_none
    rintro ⟨mark, body, hm, he⟩
    match token, hn with
    | [c], _ =>
      -- A single character is followed by a blank, which is no quote.
      cases rest with
      | nil => simp at he
      | cons d ds =>
        simp only [List.singleton_append, List.cons.injEq] at he
        obtain ⟨-, rfl, -⟩ := he
        have := hr '"' rfl
        exact absurd this (by decide)
    | c :: d :: ds, _ =>
      simp only [List.cons_append, List.cons.injEq] at he
      obtain ⟨rfl, rfl, -⟩ := he
      obtain ⟨h1, h2⟩ := hq ⟨c, ds, hm, rfl⟩
      simpa using ⟨h1, h2⟩
  have hp : ∀ c ∈ token, (!Text.isBlank c) = true := by
    intro c hc
    simp [hb c hc]
  have ht : rest.takeWhile (fun c ↦ !Text.isBlank c) = [] := by
    cases rest with
    | nil => rfl
    | cons d ds => simp [hr d rfl]
  have hd : rest.dropWhile (fun c ↦ !Text.isBlank c) = rest := by
    cases rest with
    | nil => rfl
    | cons d ds => simp [hr d rfl]
  rw [split, none, Option.getD_none, splitPlain, List.takeWhile_append_of_pos hp,
    List.dropWhile_append_of_pos hp, ht, hd, List.append_nil]

/-- A token begins with a character that is not blank. -/
theorem exists_cons_of_isLiteral {token : List Char} (h : IsLiteral token) :
    ∃ c cs, token = c :: cs ∧ Text.isBlank c = false := by
  obtain ⟨mark, body, hm, -, rfl⟩ := h
  refine ⟨mark, _, rfl, ?_⟩
  simp only [opensLiteral, Bool.or_eq_true, beq_iff_eq] at hm
  rcases hm with ((rfl | rfl) | rfl) | rfl <;> decide

/-- A token that is split off is the first one of the scanned line. -/
theorem scan_append_of_split {token rest : List Char}
    (hs : split (token ++ rest) = (token, rest))
    (hc : ∃ c cs, token = c :: cs ∧ Text.isBlank c = false) :
    scan (token ++ rest) = token :: scan rest := by
  obtain ⟨c, cs, rfl, hb⟩ := hc
  rw [List.cons_append] at hs ⊢
  rw [scan_token _ hb, hs]

/-! ### Reading a spaced line back -/

/-- Joining adds no character but the space. -/
theorem not_mem_intercalate {c : Char} (hc : c ≠ ' ') {ts : List (List Char)}
    (h : ∀ t ∈ ts, c ∉ t) : c ∉ [' '].intercalate ts := by
  induction ts with
  | nil => simp
  | cons t ts ih =>
    have ht := h t List.mem_cons_self
    have hts := ih fun u hu ↦ h u (List.mem_cons_of_mem t hu)
    cases ts with
    | nil => simpa using ht
    | cons u us =>
      rw [List.intercalate_cons_cons]
      simp only [List.mem_append, List.mem_singleton, not_or]
      exact ⟨⟨ht, hc⟩, hts⟩

/-- Scanning the tokens of a spaced line with single spaces between them gives the line. -/
theorem scan_intercalate {ts : List (List Char)} (h : Spaced ts) :
    scan ([' '].intercalate ts) = ts := by
  induction ts with
  | nil => simp
  | cons t ts ih =>
    obtain ⟨ht, hts⟩ := h
    -- What follows the token: nothing, or a space and the remaining tokens.
    obtain ⟨rest, he, hr, hb, hq⟩ : ∃ rest, [' '].intercalate (t :: ts) = t ++ rest ∧
        scan rest = ts ∧ (∀ c ∈ rest.head?, Text.isBlank c = true) ∧
        ((∀ u ∈ ts, '"' ∉ u) → '"' ∉ rest) := by
      cases ts with
      | nil => exact ⟨[], by simp, by simp, by simp, by simp⟩
      | cons u us =>
        refine ⟨' ' :: [' '].intercalate (u :: us), by simp, ?_, ?_, ?_⟩
        · rw [scan_blank _ (by decide), ih hts]
        · intro c hc
          simp only [List.head?_cons, Option.mem_def, Option.some.injEq] at hc
          subst hc
          decide
        · intro hu
          simpa using not_mem_intercalate (by decide) hu
    rw [he]
    rcases ht with hl | ⟨hp, hopen⟩
    · rw [scan_append_of_split (split_literal_append hl rest) (exists_cons_of_isLiteral hl), hr]
    · have hs : split (t ++ rest) = (t, rest) :=
        split_plain_append hp (fun ho ↦ ⟨(hopen ho).1, hq (hopen ho).2⟩) hb
      obtain ⟨c, cs, rfl⟩ := List.exists_cons_of_ne_nil hp.1
      rw [scan_append_of_split hs ⟨c, cs, rfl, hp.2 c List.mem_cons_self⟩, hr]

/-! ### Scanned lines are spaced -/

/-- Scanning invents no characters. -/
theorem mem_of_mem_scan {cs token : List Char} {c : Char} (ht : token ∈ scan cs)
    (hc : c ∈ token) : c ∈ cs := by
  fun_induction scan cs with
  | case1 => simp at ht
  | case2 d ds hd ih => exact List.mem_cons_of_mem d (ih ht)
  | case3 d ds hd ih =>
    have whole := split_append (d :: ds)
    rw [← whole, List.mem_append]
    rcases List.mem_cons.mp ht with rfl | ht
    · exact Or.inl hc
    · exact Or.inr (ih ht)

/-- A literal that is split off has one quote before the closing one. -/
theorem isLiteral_of_splitLiteral? {cs token rest : List Char}
    (h : splitLiteral? cs = some (token, rest)) : IsLiteral token := by
  match cs with
  | [] => simp [splitLiteral?] at h
  | [_] => simp [splitLiteral?] at h
  | mark :: quote :: cs =>
    simp only [splitLiteral?] at h
    split at h
    · next hc =>
      simp only [Bool.and_eq_true, beq_iff_eq] at hc
      obtain ⟨hm, rfl⟩ := hc
      split at h
      · simp at h
      · next close others heq =>
        simp only [Option.some.injEq, Prod.mk.injEq] at h
        have hclose : close = '"' := by
          have := List.head?_dropWhile_not (· != '"') cs
          rw [heq] at this
          simpa using this
        refine ⟨mark, cs.takeWhile (· != '"'), hm, ?_, ?_⟩
        · intro hq
          have := List.mem_takeWhile_imp hq
          simp at this
        · rw [← h.1, hclose]
    · simp at h

private theorem quote_not_mem_of_none {mark : Char} {cs : List Char}
    (hm : opensLiteral mark = true) (h : splitLiteral? (mark :: '"' :: cs) = none) :
    '"' ∉ cs := by
  simp only [splitLiteral?, hm, beq_self_eq_true, Bool.and_self, ↓reduceIte] at h
  split at h
  · next hd =>
    intro hq
    have := List.dropWhile_eq_nil_iff.mp hd '"' hq
    simp at this
  · simp at h

/-- What is split off before a character that is not blank is a literal, or a plain token that goes
up to the next blank and begins no literal that is closed later. -/
theorem split_cases {c : Char} {cs token rest : List Char} (hc : Text.isBlank c = false)
    (h : split (c :: cs) = (token, rest)) :
    IsLiteral token ∨
      IsPlain token ∧ (∀ d ∈ rest.head?, Text.isBlank d = true) ∧
        (Opens token → '"' ∉ (token ++ rest).drop 2) := by
  have whole : token ++ rest = c :: cs := by
    have := split_append (c :: cs)
    rwa [h] at this
  have nonempty : token ≠ [] := by
    have := split_fst_ne_nil cs hc
    rwa [h] at this
  unfold split at h
  cases hl : splitLiteral? (c :: cs) with
  | some parts =>
    rw [hl, Option.getD_some] at h
    rw [h] at hl
    exact Or.inl (isLiteral_of_splitLiteral? hl)
  | none =>
    rw [hl, Option.getD_none, splitPlain, Prod.mk.injEq] at h
    refine Or.inr ⟨⟨nonempty, ?_⟩, ?_, ?_⟩
    · intro d hd
      rw [← h.1] at hd
      simpa using List.mem_takeWhile_imp hd
    · intro d hd
      have := List.head?_dropWhile_not (fun c ↦ !Text.isBlank c) (c :: cs)
      rw [h.2, Option.mem_def.mp hd] at this
      simpa using this
    · rintro ⟨mark, body, hm, rfl⟩
      rw [← whole] at hl
      exact quote_not_mem_of_none hm hl

/-- The tokens of a scanned line form a spaced line. -/
theorem spaced_scan (cs : List Char) : Spaced (scan cs) := by
  fun_induction scan cs with
  | case1 => trivial
  | case2 c cs hc ih => exact ih
  | case3 c cs hc ih =>
    refine ⟨?_, ih⟩
    rcases split_cases (by simpa using hc) (Prod.eta (split (c :: cs))).symm with
      hl | ⟨hp, -, hopen⟩
    · exact Or.inl hl
    · refine Or.inr ⟨hp, fun ho ↦ ?_⟩
      have hq := hopen ho
      rw [ho.drop_append, List.mem_append, not_or] at hq
      exact ⟨hq.1, fun other hother hmem ↦ hq.2 (mem_of_mem_scan hother hmem)⟩

end SicXe.Token

namespace SicXe.Text

/-! ### Lines of a text -/

/-- A line feed ends the first line of a text. -/
theorem lines_append (line cs : List Char) (h : '\n' ∉ line) :
    lines (line ++ '\n' :: cs) = dropReturn line :: lines cs := by
  simp only [lines, splitLines_append line cs h, List.map_cons, List.cons_append]

/-- The lines of a text: each but the last one is ended by a line feed, and a carriage return right
before the line feed belongs to the line end. -/
inductive HasLines : List Char → List (List Char) → Prop
  | last {line : List Char} : '\n' ∉ line → HasLines line [line]
  | feed {line rest : List Char} {lines : List (List Char)} :
      '\n' ∉ line → line.getLast? ≠ some '\r' → HasLines rest lines →
        HasLines (line ++ '\n' :: rest) (line :: lines)
  | returnFeed {line rest : List Char} {lines : List (List Char)} :
      '\n' ∉ line → HasLines rest lines →
        HasLines (line ++ '\r' :: '\n' :: rest) (line :: lines)

/-- One carriage return at the end of a line is dropped. -/
theorem dropReturn_append (line : List Char) : dropReturn (line ++ ['\r']) = line := by
  simp [dropReturn]

/-- The lines of a text are determined. -/
theorem HasLines.lines_eq {cs : List Char} {ls : List (List Char)} (h : HasLines cs ls) :
    lines cs = ls := by
  induction h with
  | last hn => simp [lines, splitLines_of_not_mem _ hn]
  | @feed line rest _ hn hr _ ih =>
    have keep : dropReturn line = line := if_neg hr
    rw [lines_append line rest hn, keep, ih]
  | @returnFeed line rest _ hn _ ih =>
    have hn' : '\n' ∉ line ++ ['\r'] := by simpa using hn
    rw [List.append_cons, lines_append _ rest hn', dropReturn_append, ih]

/-- Every text has lines. -/
theorem hasLines_lines (cs : List Char) : HasLines cs (lines cs) := by
  -- The text after the first line feed is shorter.
  induction hlength : cs.length using Nat.strongRecOn generalizing cs with
  | ind n ih =>
    by_cases hn : '\n' ∈ cs
    · obtain ⟨line, rest, rfl, hline⟩ := List.eq_append_cons_of_mem hn
      have hrest := ih rest.length (by simp at hlength; omega) rest rfl
      rw [lines_append line rest hline]
      by_cases hr : line.getLast? = some '\r'
      · obtain ⟨init, rfl⟩ := List.getLast?_eq_some_iff.mp hr
        rw [dropReturn_append, ← List.append_cons]
        exact .returnFeed (fun h ↦ hline (List.mem_append_left _ h)) hrest
      · have keep : dropReturn line = line := if_neg hr
        rw [keep]
        exact .feed hline hr hrest
    · rw [lines, splitLines_of_not_mem cs hn]
      exact .last hn

/-- Lines joined by line feeds, with carriage returns before all of them or none, are recovered, if
none of the lines ends in a carriage return. -/
theorem hasLines_intercalate {sep : List Char} (hsep : sep = ['\n'] ∨ sep = ['\r', '\n'])
    {ls : List (List Char)} (hne : ls ≠ []) (hn : ∀ l ∈ ls, '\n' ∉ l)
    (hr : ∀ l ∈ ls, l.getLast? ≠ some '\r') : HasLines (sep.intercalate ls) ls := by
  induction ls with
  | nil => exact absurd rfl hne
  | cons l ls ih =>
    have hl := hn l List.mem_cons_self
    cases ls with
    | nil =>
      rw [List.intercalate_singleton]
      exact .last hl
    | cons m ms =>
      have hms := ih (by simp) (fun k hk ↦ hn k (List.mem_cons_of_mem l hk))
        fun k hk ↦ hr k (List.mem_cons_of_mem l hk)
      rw [List.intercalate_cons_cons, List.append_assoc]
      rcases hsep with rfl | rfl
      · exact .feed hl (hr l List.mem_cons_self) hms
      · exact .returnFeed hl hms

/-- No line of a text holds a line feed. -/
theorem newline_not_mem_of_mem_lines {cs line : List Char} (h : line ∈ lines cs) :
    '\n' ∉ line := by
  have hl := hasLines_lines cs
  generalize lines cs = ls at h hl
  induction hl with
  | last hn => rwa [List.mem_singleton.mp h]
  | feed hn _ _ ih => exact (List.mem_cons.mp h).elim (fun he ↦ he ▸ hn) ih
  | returnFeed hn _ ih => exact (List.mem_cons.mp h).elim (fun he ↦ he ▸ hn) ih

end SicXe.Text

namespace SicXe.Token

/-! ### Texts of token lines -/

/-- Joined tokens are read character by character. -/
theorem toList_join (tokens : List String) :
    (join tokens).toList = [' '].intercalate (tokens.map String.toList) := by
  simp [join]

/-- The tokens of every line of a text form a line. -/
theorem isLine_of_mem_ofText {text : String} {tokens : List String} (h : tokens ∈ ofText text) :
    IsLine tokens := by
  obtain ⟨hm, hne⟩ := List.mem_filter.mp h
  obtain ⟨line, hl, rfl⟩ := List.mem_map.mp hm
  have hs : ((scan line).map String.ofList).map String.toList = scan line := by
    simp [List.map_map, Function.comp_def]
  refine ⟨by simpa using hne, ?_, ?_⟩
  · rw [hs]
    exact spaced_scan line
  · intro token ht hc
    obtain ⟨cs, hcs, rfl⟩ := List.mem_map.mp ht
    rw [String.toList_ofList] at hc
    exact Text.newline_not_mem_of_mem_lines hl (mem_of_mem_scan hcs hc)

private theorem getLast?_spaced {ts : List (List Char)} (hne : ts ≠ []) (h : Spaced ts) :
    ([' '].intercalate ts).getLast? ≠ some '\r' := by
  induction ts with
  | nil => exact absurd rfl hne
  | cons t ts ih =>
    obtain ⟨ht, hts⟩ := h
    cases ts with
    | nil =>
      rw [List.intercalate_singleton]
      rcases ht with ⟨mark, body, -, -, rfl⟩ | ⟨⟨hn, hb⟩, -⟩
      · rw [← List.cons_append, ← List.cons_append, List.getLast?_concat]
        decide
      · intro hlast
        have := hb '\r' (List.mem_of_getLast? hlast)
        exact absurd this (by decide)
    | cons u us =>
      have hu := ih (by simp) hts
      have hne' : [' '].intercalate (u :: us) ≠ [] := by
        intro he
        have := scan_intercalate hts
        rw [he, scan_nil] at this
        simp at this
      rw [List.intercalate_cons_cons, List.getLast?_append, Option.or_of_isSome]
      · exact hu
      · simpa using hne'

/-- Token lines are recovered from the text that has each of them on a line of its own, with line
feeds between them or with carriage returns and line feeds. -/
theorem ofText_intercalate {sep : String} (hsep : sep = "\n" ∨ sep = "\r\n")
    {lines : List (List String)} (h : ∀ tokens ∈ lines, IsLine tokens) :
    ofText (sep.intercalate (lines.map join)) = lines := by
  cases lines with
  | nil => simp [ofText, Text.lines, Text.splitLines]
  | cons first others =>
    have hl : Text.HasLines (sep.intercalate ((first :: others).map join)).toList
        ((first :: others).map fun tokens ↦ [' '].intercalate (tokens.map String.toList)) := by
      have ht : (sep.intercalate ((first :: others).map join)).toList = sep.toList.intercalate
          ((first :: others).map fun tokens ↦ [' '].intercalate (tokens.map String.toList)) := by
        simp [toList_join, Function.comp_def]
      rw [ht]
      apply Text.hasLines_intercalate
      · rcases hsep with rfl | rfl
        · exact Or.inl rfl
        · exact Or.inr rfl
      · simp
      · intro l hl
        obtain ⟨tokens, hm, rfl⟩ := List.mem_map.mp hl
        apply not_mem_intercalate (by decide)
        intro t ht
        obtain ⟨token, hk, rfl⟩ := List.mem_map.mp ht
        exact (h tokens hm).oneLine token hk
      · intro l hl
        obtain ⟨tokens, hm, rfl⟩ := List.mem_map.mp hl
        exact getLast?_spaced (by simpa using (h tokens hm).ne_nil) (h tokens hm).spaced
    have hs : ∀ tokens ∈ first :: others,
        (scan ([' '].intercalate (tokens.map String.toList))).map String.ofList = tokens := by
      intro tokens hm
      rw [scan_intercalate (h tokens hm).spaced]
      simp [List.map_map, Function.comp_def]
    rw [ofText, hl.lines_eq, List.map_map, List.map_congr_left (g := id) (by simpa using hs),
      List.map_id]
    apply List.filter_eq_self.mpr
    intro tokens hm
    simpa using (h tokens hm).ne_nil

/-- Token lines are recovered from their text. -/
theorem ofText_joinLines {lines : List (List String)} (h : ∀ tokens ∈ lines, IsLine tokens) :
    ofText (Text.joinLines (lines.map join)) = lines :=
  ofText_intercalate (Or.inl rfl) h

end SicXe.Token
