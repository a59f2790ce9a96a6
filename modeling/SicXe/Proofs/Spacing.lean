import SicXe.Proofs.TokenText

/-!
# How token lines are laid out

A line is a margin of blanks and then tokens, each with the blanks that follow it. A literal ends at
its second quote, and another token may follow it at once; a plain token goes on to the next blank or
to the end of the line, and it begins like a literal only if no quote follows that could close it.
A line has exactly one list of tokens for which it can be laid out in this way, and scanning finds
it. Since blanks are all that is left out, the other characters of a text come back in its tokens,
each of them once and in their order; and since blanks are all that can be changed between tokens,
the tokens of a text survive when each line is joined anew.
-/

namespace SicXe.Text

/-- The characters that are not blank, in order. -/
def solid (cs : List Char) : List Char := cs.filter fun c ↦ !isBlank c

/-- Characters one after another are solid one after another. -/
@[simp] theorem solid_append (cs ds : List Char) : solid (cs ++ ds) = solid cs ++ solid ds := by
  simp [solid]

/-- Blanks are not solid. -/
theorem solid_eq_nil {cs : List Char} (h : ∀ c ∈ cs, isBlank c = true) : solid cs = [] := by
  apply List.filter_eq_nil_iff.mpr
  intro c hc
  simp [h c hc]

/-- A blank in front is not solid. -/
@[simp] theorem solid_cons_of_isBlank {c : Char} (h : isBlank c = true) (cs : List Char) :
    solid (c :: cs) = solid cs := by
  simp [solid, h]

/-- What ends a line is blank, so the lines hold all solid characters of a text. -/
theorem HasLines.solid_flatten {cs : List Char} {ls : List (List Char)} (h : HasLines cs ls) :
    solid ls.flatten = solid cs := by
  have feed : isBlank '\n' = true := by decide
  have ret : isBlank '\r' = true := by decide
  induction h with
  | last _ => simp
  | feed _ _ _ ih => simp [ih, feed]
  | returnFeed _ _ ih => simp [ih, feed, ret]

end SicXe.Text

namespace SicXe.Token

/-- A token and what stands between it and the next token or the end of the line. -/
structure Part where
  /-- The characters of the token. -/
  token : List Char
  /-- The characters after it. -/
  gap : List Char

/-- The characters of parts one after another. -/
def Part.text : List Part → List Char
  | [] => []
  | part :: rest => part.token ++ (part.gap ++ text rest)

/-- A run of blanks, which may be empty. -/
def IsGap (cs : List Char) : Prop := ∀ c ∈ cs, Text.isBlank c = true

/-- Tokens with the blanks after them. A plain token has a blank after it or ends the line, and if it
begins like a literal, no quote stands in what follows its first two characters. -/
inductive Arranged : List Part → Prop
  | nil : Arranged []
  | literal {token gap : List Char} {rest : List Part} :
      IsLiteral token → IsGap gap → Arranged rest → Arranged (⟨token, gap⟩ :: rest)
  | plain {token gap : List Char} {rest : List Part} :
      IsPlain token → IsGap gap → (gap ≠ [] ∨ rest = []) →
        (Opens token → '"' ∉ (token ++ (gap ++ Part.text rest)).drop 2) → Arranged rest →
        Arranged (⟨token, gap⟩ :: rest)

/-! ### A layout determines the tokens -/

/-- Blanks in front of a line do not matter. -/
theorem scan_gap_append {gap : List Char} (h : IsGap gap) (cs : List Char) :
    scan (gap ++ cs) = scan cs := by
  induction gap with
  | nil => rfl
  | cons c gap ih =>
    rw [List.cons_append, scan_blank _ (h c List.mem_cons_self)]
    exact ih fun d hd ↦ h d (List.mem_cons_of_mem c hd)

/-- The tokens of an arrangement are those that scanning finds. -/
theorem scan_text {parts : List Part} (h : Arranged parts) :
    scan (Part.text parts) = parts.map Part.token := by
  induction h with
  | nil => exact scan_nil
  | @literal token gap rest hl hg _ ih =>
    have hs := split_literal_append hl (gap ++ Part.text rest)
    rw [Part.text, scan_append_of_split hs (exists_cons_of_isLiteral hl), scan_gap_append hg, ih,
      List.map_cons]
  | @plain token gap rest hp hg hend hopen _ ih =>
    -- The token stops where it is meant to: a blank follows, or nothing does.
    have hstop : ∀ c ∈ (gap ++ Part.text rest).head?, Text.isBlank c = true := by
      intro c hc
      cases gap with
      | nil =>
        have hrest : rest = [] := by simpa using hend
        simp [hrest, Part.text] at hc
      | cons d ds =>
        have hd : d = c := by simpa using hc
        exact hd ▸ hg d List.mem_cons_self
    have hquote : Opens token → '"' ∉ token.drop 2 ∧ '"' ∉ gap ++ Part.text rest := by
      intro ho
      have hq := hopen ho
      rwa [ho.drop_append, List.mem_append, not_or] at hq
    have hs := split_plain_append hp hquote hstop
    obtain ⟨c, cs, hcons⟩ := List.exists_cons_of_ne_nil hp.1
    have hfirst : Text.isBlank c = false := hp.2 c (by simp [hcons])
    rw [Part.text, scan_append_of_split hs ⟨c, cs, hcons, hfirst⟩, scan_gap_append hg, ih,
      List.map_cons]

/-! ### Every line has a layout -/

/-- An arrangement with tokens begins with a character that is not blank. -/
theorem Arranged.exists_head {part : Part} {rest : List Part} (h : Arranged (part :: rest)) :
    ∃ c ∈ (Part.text (part :: rest)).head?, Text.isBlank c = false := by
  cases h with
  | literal hl _ _ =>
    obtain ⟨c, cs, rfl, hc⟩ := exists_cons_of_isLiteral hl
    exact ⟨c, rfl, hc⟩
  | plain hp _ _ _ _ =>
    obtain ⟨c, cs, rfl⟩ := List.exists_cons_of_ne_nil hp.1
    exact ⟨c, rfl, hp.2 c List.mem_cons_self⟩

/-- Every line can be laid out with the tokens that scanning finds. -/
theorem exists_arranged (cs : List Char) :
    ∃ margin parts, IsGap margin ∧ Arranged parts ∧ cs = margin ++ Part.text parts ∧
      scan cs = parts.map Part.token := by
  fun_induction scan cs with
  | case1 => exact ⟨[], [], by simp [IsGap], .nil, rfl, rfl⟩
  | case2 c cs hc ih =>
    obtain ⟨margin, parts, hm, hp, hcs, hscan⟩ := ih
    refine ⟨c :: margin, parts, ?_, hp, by rw [hcs, List.cons_append], hscan⟩
    exact List.forall_mem_cons.mpr ⟨hc, hm⟩
  | case3 c cs hc ih =>
    obtain ⟨margin, parts, hm, hp, hcs, hscan⟩ := ih
    have hwhole := split_append (c :: cs)
    have hsplit := split_cases (by simpa using hc) (Prod.eta (split (c :: cs))).symm
    rw [hscan]
    generalize (split (c :: cs)).1 = token at hwhole hsplit ⊢
    -- The margin of the rest is the gap after the token.
    rw [hcs] at hwhole hsplit
    refine ⟨[], ⟨token, margin⟩ :: parts, by simp [IsGap], ?_, hwhole.symm, rfl⟩
    rcases hsplit with hl | ⟨hplain, hstop, hopen⟩
    · exact .literal hl hm hp
    · refine .plain hplain hm ?_ hopen hp
      by_cases hmargin : margin = []
      · right
        rw [hmargin, List.nil_append] at hstop
        cases parts with
        | nil => rfl
        | cons part rest =>
          -- Without a gap the rest would begin with a blank and with a token.
          obtain ⟨d, hd, hsolid⟩ := hp.exists_head
          rw [hstop d hd] at hsolid
          cases hsolid
      · exact Or.inl hmargin

/-- A list is the tokens of a line exactly when the line can be laid out with them. -/
theorem ofLine_eq_iff {line : String} {tokens : List String} :
    ofLine line = tokens ↔ ∃ margin parts, IsGap margin ∧ Arranged parts ∧
      line.toList = margin ++ Part.text parts ∧
      tokens.map String.toList = parts.map Part.token := by
  constructor
  · rintro rfl
    obtain ⟨margin, parts, hm, hp, hcs, hscan⟩ := exists_arranged line.toList
    refine ⟨margin, parts, hm, hp, hcs, ?_⟩
    rw [← hscan]
    simp [ofLine, Function.comp_def]
  · rintro ⟨margin, parts, hm, hp, hline, htokens⟩
    have hscan : scan line.toList = tokens.map String.toList := by
      rw [hline, scan_gap_append hm, scan_text hp, htokens]
    simp [ofLine, hscan, Function.comp_def]

-- A literal ends at its quote; one that no quote closes is a plain token.
example : ofLine "A C\"x y\"B c\"z 1" = ["A", "C\"x y\"", "B", "c\"z", "1"] := by cbv

/-- The token lines of a text are those of its lines that have tokens. -/
theorem ofText_eq_iff {text : String} {tokenLines : List (List String)} :
    ofText text = tokenLines ↔ ∃ lines : List String,
      Text.HasLines text.toList (lines.map String.toList) ∧
      tokenLines = (lines.map ofLine).filter fun tokens ↦ !tokens.isEmpty := by
  constructor
  · rintro rfl
    refine ⟨(Text.lines text.toList).map String.ofList, ?_, ?_⟩
    · simpa [Function.comp_def] using Text.hasLines_lines text.toList
    · simp [ofText, ofLine, Function.comp_def]
  · rintro ⟨lines, hlines, rfl⟩
    rw [ofText, hlines.lines_eq, List.map_map]
    rfl

/-! ### Nothing but blanks is left out -/

/-- Gaps are all that an arrangement adds to its tokens. -/
theorem Arranged.solid_flatten {parts : List Part} (h : Arranged parts) :
    Text.solid (parts.map Part.token).flatten = Text.solid (Part.text parts) := by
  induction h with
  | nil => rfl
  | literal _ hg _ ih => simp [Part.text, ih, Text.solid_eq_nil hg]
  | plain _ hg _ _ _ ih => simp [Part.text, ih, Text.solid_eq_nil hg]

/-- The tokens of a line hold its solid characters. -/
theorem solid_scan (cs : List Char) : Text.solid (scan cs).flatten = Text.solid cs := by
  obtain ⟨margin, parts, hm, hp, hcs, hscan⟩ := exists_arranged cs
  rw [hscan, hp.solid_flatten, hcs, Text.solid_append, Text.solid_eq_nil hm, List.nil_append]

/-- The tokens of one line of text hold its solid characters. -/
theorem solid_ofLine (line : String) :
    Text.solid ((ofLine line).flatMap String.toList) = Text.solid line.toList := by
  rw [← solid_scan line.toList]
  simp [ofLine, List.flatMap_def, Function.comp_def]

/-- The tokens of a text hold its solid characters. -/
theorem solid_ofText (text : String) :
    Text.solid ((ofText text).flatten.flatMap String.toList) = Text.solid text.toList := by
  obtain ⟨lines, hlines, htext⟩ := ofText_eq_iff.mp (Eq.refl (ofText text))
  rw [htext, List.flatten_filter_not_isEmpty, ← hlines.solid_flatten]
  clear hlines htext
  induction lines with
  | nil => rfl
  | cons line lines ih => simp [ih, solid_ofLine]

/-- The tokens of a line are the only ones with which the line can be laid out as blanks, literals
and plain tokens. The token lines of a text are those of its lines, less those without tokens. In
both, the characters that are not blank come back, each of them once and in their order. -/
theorem tokens_determined_by_layout :
    (∀ line tokens, ofLine line = tokens ↔ ∃ margin parts, IsGap margin ∧ Arranged parts ∧
        line.toList = margin ++ Part.text parts ∧
        tokens.map String.toList = parts.map Part.token) ∧
      (∀ text tokenLines, ofText text = tokenLines ↔ ∃ lines : List String,
        Text.HasLines text.toList (lines.map String.toList) ∧
        tokenLines = (lines.map ofLine).filter fun tokens ↦ !tokens.isEmpty) ∧
      (∀ line, Text.solid ((ofLine line).flatMap String.toList) = Text.solid line.toList) ∧
      ∀ text, Text.solid ((ofText text).flatten.flatMap String.toList) = Text.solid text.toList :=
  ⟨fun _ _ ↦ ofLine_eq_iff, fun _ _ ↦ ofText_eq_iff, solid_ofLine, solid_ofText⟩

/-! ### Texts joined anew -/

/-- A text keeps its tokens when the tokens of each line are joined by single spaces and the lines
by line feeds, with or without carriage returns. -/
theorem rejoined_text_keeps_tokens (text : String) :
    ofText ("\n".intercalate ((ofText text).map join)) = ofText text ∧
      ofText ("\r\n".intercalate ((ofText text).map join)) = ofText text := by
  have hlines : ∀ tokens ∈ ofText text, IsLine tokens := fun _ ht ↦ isLine_of_mem_ofText ht
  exact ⟨ofText_intercalate (Or.inl rfl) hlines, ofText_intercalate (Or.inr rfl) hlines⟩

end SicXe.Token
