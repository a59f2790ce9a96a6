import SicXe.Proofs.Leftover

/-!
# Symbols that are known before a run

A run can be given symbols of earlier runs. It looks at them only to refuse a label that is among
them, and it never changes them. So a run with known symbols goes on like the run without them up to
the first line whose label is known, and is refused at that line unless it has stopped before. The
label of the start directive is compared with the known symbols as well, although it is never
added to them.
-/

namespace SicXe

open Listing (Line)

namespace SymbolTable

/-- A name is in a table with further entries when it is in the table or among the entries. -/
theorem contains_append (table own : SymbolTable) (name : String) :
    (table.append own.entries).contains name = (table.contains name || own.contains name) := by
  simp only [contains, find?_eq, append, List.find?_append, Option.isSome_or]

/-- A label comes after all entries, also after those of a table before it. -/
theorem insert_append (table own : SymbolTable) (name : String) (address : Nat) :
    (table.append own.entries).insert name address =
      table.append (own.insert name address).entries := by
  simp [insert, append]

end SymbolTable

namespace Grammar

/-- A token line whose label is in a table. -/
def repeats (g : Grammar) (known : SymbolTable) (tokens : List String) : Bool :=
  (g.lineLabel? tokens).any known.contains

/-- The first line of a source whose label is in a table, with its position. -/
structure RepeatsAt (g : Grammar) (known : SymbolTable) (source : List (List String)) (k : Nat)
    (tokens : List String) : Prop where
  line_eq : source[k]? = some tokens
  repeats : g.repeats known tokens = true
  first : ∀ i < k, ∀ other ∈ source[i]?, g.repeats known other = false

variable {g : Grammar} {known : SymbolTable} {tokens other : List String}
  {rest : List (List String)} {k : Nat}

/-- With a line in front whose label is not known, the first line whose label is known stands one
position later. -/
theorem RepeatsAt.cons (h : g.RepeatsAt known rest k tokens)
    (hother : g.repeats known other = false) :
    g.RepeatsAt known (other :: rest) (k + 1) tokens where
  line_eq := by simpa using h.line_eq
  repeats := h.repeats
  first i hi line hline := by
    cases i with
    | zero =>
      obtain rfl := Option.some.inj hline
      exact hother
    | succ i => exact h.first i (by omega) line (by simpa using hline)

end Grammar

namespace Placement

variable {g : Grammar} {limit : Nat} {layout : Layout} {known own : SymbolTable}
  {tokens : List String}

/-- The result of a run with known symbols put before those that it leaves. -/
def withKnown {α : Type} (known : SymbolTable) (result : α × SymbolTable) : α × SymbolTable :=
  (result.1, known.append result.2.entries)

/-! ### What known symbols change at one line -/

/-- A line whose label is known is refused for it, whatever else is wrong with its operands. -/
theorem placeLine_of_repeats (h : g.repeats known tokens = true) (own : SymbolTable) :
    placeLine g limit layout (known.append own.entries) tokens =
      (.error .duplicateLabel, known.append own.entries) := by
  obtain ⟨name, hname, hk⟩ := (Option.any_eq_true _ _).mp h
  obtain ⟨s, hs, hl⟩ := Option.bind_eq_some_iff.mp hname
  simp [placeLine, Grammar.parse, hs, defineLabel, hl, SymbolTable.contains_append, hk]

/-- A line whose label is not known is placed as without the known symbols. -/
theorem placeLine_of_not_repeats (h : g.repeats known tokens = false) (own : SymbolTable) :
    placeLine g limit layout (known.append own.entries) tokens =
      withKnown known (placeLine g limit layout own tokens) := by
  unfold placeLine Grammar.parse
  unfold Grammar.repeats Grammar.lineLabel? at h
  cases hs : g.statement? tokens with
  | none => rfl
  | some s =>
    cases hl : s.label with
    | none => simp [defineLabel, hl, withKnown]
    | some name =>
      have hk : known.contains name = false := by simpa [hs, hl] using h
      simp only [defineLabel, hl, SymbolTable.contains_append, hk, Bool.false_or,
        SymbolTable.insert_append]
      cases own.contains name with
      | true => rfl
      | false => cases layout.startSeen <;> rfl

/-! ### What known symbols change in a run -/

/-- A line in front of a listing and known symbols in front of the table do not interfere. -/
theorem prepend_withKnown (line : Option Line) (known : SymbolTable)
    (result : Except Error Placed × SymbolTable) :
    prepend line (withKnown known result) = withKnown known (prepend line result) := rfl

/-- A run with known symbols is refused at the first line whose label is known, and up to there the
run without them has not stopped either; or it does the same as the run without them. -/
theorem placeFrom_withKnown (hb : layout.IsBounded limit) (he : layout.endSeen = false)
    (known own : SymbolTable) (source : List (List String)) :
    (∃ k tokens, g.RepeatsAt known source k tokens ∧
      FailsAt (fun lines ↦ (placeFrom g limit layout (known.append own.entries) lines).1) source
        { fault := .duplicateLabel, line := Token.join tokens } k ∧
      ∀ i ≤ k, (placeFrom g limit layout own (source.take i)).1 = .error endOfInput) ∨
    ∀ i, placeFrom g limit layout (known.append own.entries) (source.take i) =
      withKnown known (placeFrom g limit layout own (source.take i)) := by
  induction source generalizing layout own with
  | nil =>
    right
    intro i
    rw [List.take_nil, placeFrom_nil g limit _ he, placeFrom_nil g limit _ he]
    rfl
  | cons tokens rest ih =>
    have hnil : ∀ table, placeFrom g limit layout table [] = (.error endOfInput, table) :=
      fun table ↦ placeFrom_nil g limit table he
    -- A first line that both runs take alike leaves only the longer parts of the source to compare.
    have hsame : (∀ i, placeFrom g limit layout (known.append own.entries) (tokens :: rest.take i) =
        withKnown known (placeFrom g limit layout own (tokens :: rest.take i))) →
        ∀ i, placeFrom g limit layout (known.append own.entries) ((tokens :: rest).take i) =
          withKnown known (placeFrom g limit layout own ((tokens :: rest).take i)) := by
      intro hrest i
      cases i with
      | zero => rw [List.take_zero, hnil, hnil]; rfl
      | succ i => exact hrest i
    cases hf : standingFault? limit layout with
    | some fault =>
      right
      apply hsame
      intro i
      simp only [placeFrom, hf, withKnown]
    | none =>
      have hstep := placeFrom_cons (g := g) hf he (known.append own.entries) tokens
      have hown := placeFrom_cons (g := g) hf he own tokens
      cases hr : g.repeats known tokens with
      | true =>
        left
        simp only [placeLine_of_repeats hr] at hstep
        refine ⟨0, tokens, ⟨rfl, hr, by simp⟩, failsAt_first he hstep, ?_⟩
        intro i hi
        obtain rfl : i = 0 := by omega
        rw [List.take_zero, hnil]
      | false =>
        rw [placeLine_of_not_repeats hr] at hstep
        rcases hp : placeLine g limit layout own tokens with ⟨fault | ⟨line, next⟩, defined⟩
        · simp only [hp, withKnown] at hstep hown
          right
          apply hsame
          intro i
          rw [hstep, hown]
          rfl
        · simp only [hp, withKnown] at hstep hown
          obtain ⟨s, -, -, heffect⟩ := placeLine_eq_ok_iff.mp hp
          have hbounded := heffect.isBounded hb
          cases hn : next.endSeen with
          | true =>
            have hstop := placeFrom_of_endSeen (g := g) hn (standingFault?_of_endSeen hbounded hn)
            right
            apply hsame
            intro i
            rw [hstep, hown, hstop, hstop, ← prepend_withKnown]
            rfl
          | false =>
            rcases ih hbounded hn defined with ⟨k, other, hrepeats, hfails, hbefore⟩ | hrest
            · left
              refine ⟨k + 1, other, hrepeats.cons hr, ?_, ?_⟩
              · exact hfails.cons (by rw [hnil]) (error_of_prepend hstep)
              · intro i hi
                cases i with
                | zero => rw [List.take_zero, hnil]
                | succ i =>
                  rw [List.take_succ_cons, hown, prepend, hbefore i (by omega)]
                  rfl
            · right
              apply hsame
              intro i
              rw [hstep, hown, hrest, prepend_withKnown]

/-! ### What known symbols change -/

section

variable {options : Options} {table : OpTable} {source : List (List String)} {e : Error} {k : Nat}

/-- A source is refused at its first line whose label is known. -/
def RefusedAt (options : Options) (table : OpTable) (known : SymbolTable)
    (source : List (List String)) (k : Nat) : Prop :=
  ∃ tokens, (grammar options table).RepeatsAt known source k tokens ∧
    FailsAt (result options table known) source
      { fault := .duplicateLabel, line := Token.join tokens } k

/-- A run with known symbols is refused at the first line whose label is known, and up to there the
run without them has not stopped either; or it does the same as the run without them. -/
theorem refusedAt_or_withKnown (options : Options) (table : OpTable) (known : SymbolTable)
    (source : List (List String)) :
    (∃ k, RefusedAt options table known source k ∧
      ∀ i ≤ k, result options table .empty (source.take i) = .error endOfInput) ∨
    ∀ i, run options table known (source.take i) =
      withKnown known (run options table .empty (source.take i)) := by
  have hcases := placeFrom_withKnown (g := grammar options table)
    (isBounded_initial options.limit) rfl known .empty source
  have hempty : known.append SymbolTable.empty.entries = known := known.append_nil
  rw [hempty] at hcases
  rcases hcases with ⟨k, tokens, hrepeats, hfails, hbefore⟩ | hsame
  · exact Or.inl ⟨k, ⟨tokens, hrepeats, hfails⟩, hbefore⟩
  · exact Or.inr hsame

/-- A refused source has no result. -/
theorem RefusedAt.not_ok (h : RefusedAt options table known source k) (placed : Placed) :
    result options table known source ≠ .ok placed := by
  obtain ⟨tokens, -, hfails⟩ := h
  rw [hfails.whole]
  simp

/-- A run that fails for another reason than the end of its source fails at a line. -/
theorem exists_failsAt (h : result options table known source = .error e) (hne : e ≠ endOfInput) :
    ∃ k, FailsAt (result options table known) source e k := by
  obtain ⟨k, tokens, hk, hline, hbefore, hat⟩ :=
    exists_failing_line (isBounded_initial options.limit) (Prod.ext h rfl) hne
  refine ⟨k, by rw [hk, hline]; rfl, hbefore, ?_⟩
  intro more
  have hat : run options table known (source.take (k + 1)) =
      (.error e, (run options table known source).2) := hat
  exact congrArg Prod.fst (run_append hat (by simpa using hne) more)

/-- If known symbols do not change what a run does, it fails with them where it fails without
them. -/
theorem FailsAt.withKnown (hne : e ≠ endOfInput)
    (h : FailsAt (result options table .empty) source e k)
    (hsame : ∀ i, run options table known (source.take i) =
      Placement.withKnown known (run options table .empty (source.take i))) :
    FailsAt (result options table known) source e k where
  line_eq := h.line_eq
  before i hi := by
    rw [result, hsame]
    exact h.before i hi
  stops more := by
    have hat : result options table .empty (source.take (k + 1)) = .error e := by
      simpa using h.stops []
    have hknown : (run options table known (source.take (k + 1))).1 = .error e := by
      rw [hsame]
      exact hat
    exact congrArg Prod.fst (run_append (Prod.ext hknown rfl) (by simpa using hne) more)

/-- With known symbols, a program that can be placed without them is placed in the same way if its
name and its labels are not known. -/
theorem run_of_not_known {p : Program}
    (hreads : (grammar options table).Reads options.limit source p)
    (hfit : p.finish ≤ options.limit) (hfresh : SymbolTable.empty.Fresh p.symbols)
    (hname : known.contains p.name = false)
    (hnew : ∀ entry ∈ p.symbols, known.contains entry.name = false) :
    run options table known source = (.ok ⟨p.listing, p.layout⟩, known.append p.symbols) := by
  apply run_eq_ok_iff.mpr
  have hdiffer := (SymbolTable.fresh_iff.mp hfresh).2
  exact ⟨p, hreads, hfit, hname, SymbolTable.fresh_iff.mpr ⟨hnew, hdiffer⟩, rfl, rfl⟩

/-- A program that is placed with known symbols has a name and labels that are not known. -/
theorem not_known_of_run {p : Program}
    (h : run options table known source = (.ok ⟨p.listing, p.layout⟩, known.append p.symbols)) :
    known.contains p.name = false ∧ ∀ entry ∈ p.symbols, known.contains entry.name = false := by
  obtain ⟨q, -, -, hname, hfresh, hplaced, hfinal⟩ := run_eq_ok_iff.mp h
  have hlines : p.listing = q.listing := congrArg Placed.lines hplaced
  have hsymbols : p.symbols = q.symbols :=
    List.append_cancel_left (congrArg SymbolTable.entries hfinal)
  have hsame : p.name = q.name := by
    simp only [Program.listing, List.cons.injEq, Line.start.injEq] at hlines
    exact hlines.1.1
  rw [hsame, hsymbols]
  exact ⟨hname, (SymbolTable.fresh_iff.mp hfresh).1⟩

end

/-- Known symbols matter only as labels that cannot be used again. If a source can be placed without
them, then with them it can be placed exactly when neither the label of its start directive nor any
of its symbols is known, with the same result and the symbols after the known ones; otherwise it is
refused at its first line whose label is known. If it fails without them, at a line or for its end,
then with them it fails in the same way or at an earlier or the same line whose label is known. -/
theorem run_known_labels (options : Options) (table : OpTable) (known : SymbolTable)
    (source : List (List String)) :
    (∀ placed own, run options table .empty source = (.ok placed, own) →
      ∃ name start, placed.lines.head? = some (.start name start) ∧
        ((∃ other, result options table known source = .ok other) ↔
          known.contains name = false ∧ ∀ entry ∈ own.entries, known.contains entry.name = false) ∧
        ((∃ other, result options table known source = .ok other) →
          run options table known source = (.ok placed, known.append own.entries)) ∧
        ((¬ ∃ other, result options table known source = .ok other) →
          ∃ k, RefusedAt options table known source k)) ∧
      (∀ e, result options table .empty source = .error e → e ≠ endOfInput →
        ∃ k, FailsAt (result options table .empty) source e k ∧
          (FailsAt (result options table known) source e k ∨
            ∃ j ≤ k, RefusedAt options table known source j)) ∧
      (result options table .empty source = .error endOfInput →
        result options table known source = .error endOfInput ∨
          ∃ k, RefusedAt options table known source k) := by
  have hcases := refusedAt_or_withKnown options table known source
  refine ⟨?_, ?_, ?_⟩
  · intro placed own hplaced
    obtain ⟨p, hreads, hfit, -, hfresh, rfl, rfl⟩ := run_eq_ok_iff.mp hplaced
    -- A success is the success without known symbols, a failure is at a label that is known.
    have hdecided : (∃ k, RefusedAt options table known source k) ∨
        run options table known source = (.ok ⟨p.listing, p.layout⟩, known.append p.symbols) := by
      rcases hcases with ⟨k, hrefused, -⟩ | hsame
      · exact Or.inl ⟨k, hrefused⟩
      · have hwhole := hsame source.length
        rw [List.take_length, hplaced] at hwhole
        exact Or.inr hwhole
    have hsuccess : (∃ other, result options table known source = .ok other) →
        run options table known source = (.ok ⟨p.listing, p.layout⟩, known.append p.symbols) := by
      rintro ⟨other, hother⟩
      rcases hdecided with ⟨k, hrefused⟩ | hrun
      · exact absurd hother (hrefused.not_ok other)
      · exact hrun
    refine ⟨p.name, p.start, rfl, ⟨?_, ?_⟩, hsuccess, ?_⟩
    · intro hok
      exact not_known_of_run (hsuccess hok)
    · rintro ⟨hname, hnew⟩
      exact ⟨_, congrArg Prod.fst (run_of_not_known hreads hfit hfresh hname hnew)⟩
    · intro hfails
      rcases hdecided with hrefused | hrun
      · exact hrefused
      · exact absurd ⟨_, congrArg Prod.fst hrun⟩ hfails
  · intro e he hne
    obtain ⟨k, hfails⟩ := exists_failsAt he hne
    refine ⟨k, hfails, ?_⟩
    rcases hcases with ⟨j, hrefused, hbefore⟩ | hsame
    · right
      refine ⟨j, ?_, hrefused⟩
      -- After the failing line the run without known symbols would have stopped.
      by_contra hlt
      have hstopped : result options table .empty (source.take (k + 1)) = .error e := by
        simpa using hfails.stops []
      rw [hbefore (k + 1) (by omega)] at hstopped
      exact hne (Except.error.inj hstopped).symm
    · left
      exact hfails.withKnown hne hsame
  · intro hend
    rcases hcases with ⟨k, hrefused, -⟩ | hsame
    · exact Or.inr ⟨k, hrefused⟩
    · left
      have hwhole := hsame source.length
      rw [List.take_length] at hwhole
      rw [result, hwhole]
      exact hend

/-- The sample text is placed with a known symbol of another name, and refused when the label of its
last line is known in lower case. A source that is refused or that ends too early fails with a known
symbol as well. -/
theorem run_known_labels_sample :
    run {} .standard ⟨[⟨"K", 7⟩]⟩ (Token.ofText Program.sampleText) =
        (.ok ⟨Program.sample.listing, Program.sample.layout⟩,
          ⟨⟨"K", 7⟩ :: Program.sample.symbols⟩) ∧
      (∃ k, RefusedAt {} .standard ⟨[⟨"last", 7⟩]⟩ (Token.ofText Program.sampleText) k) ∧
      (∃ e k, FailsAt (result {} .standard .empty) refusedSource e k ∧
        (FailsAt (result {} .standard ⟨[⟨"a", 7⟩]⟩) refusedSource e k ∨
          ∃ j ≤ k, RefusedAt {} .standard ⟨[⟨"a", 7⟩]⟩ refusedSource j)) ∧
      (result {} .standard ⟨[⟨"a", 7⟩]⟩ (refusedSource.take 2) = .error endOfInput ∨
        ∃ k, RefusedAt {} .standard ⟨[⟨"a", 7⟩]⟩ (refusedSource.take 2) k) := by
  have hrefused : result {} .standard .empty refusedSource =
      .error ⟨.operand (.outOfRange 1 maxField), "WORD 0"⟩ := by
    decide +kernel
  have hend : result {} .standard .empty (refusedSource.take 2) = .error endOfInput := by
    decide +kernel
  refine ⟨?_, ?_, ?_, ?_⟩
  · obtain ⟨name, start, hhead, hiff, hsame, -⟩ :=
      (run_known_labels {} .standard ⟨[⟨"K", 7⟩]⟩ (Token.ofText Program.sampleText)).1 _ _
        Program.sample_run
    obtain ⟨rfl, rfl⟩ := Line.start.inj (Option.some.inj hhead)
    exact hsame (hiff.mpr (by rw [Program.sample_symbols]; decide +kernel))
  · obtain ⟨name, start, -, hiff, -, hfails⟩ :=
      (run_known_labels {} .standard ⟨[⟨"last", 7⟩]⟩ (Token.ofText Program.sampleText)).1 _ _
        Program.sample_run
    have hknown : SymbolTable.contains ⟨[⟨"last", 7⟩]⟩ "LAST" = true := by
      simp [SymbolTable.contains, SymbolTable.find?, ← String.toList_inj]
    apply hfails
    intro hok
    have hnew := (hiff.mp hok).2 ⟨"LAST", 268⟩ (by rw [Program.sample_symbols]; decide +kernel)
    rw [hknown] at hnew
    cases hnew
  · exact ⟨_, (run_known_labels {} .standard ⟨[⟨"a", 7⟩]⟩ refusedSource).2.1 _ hrefused (by decide)⟩
  · exact (run_known_labels {} .standard ⟨[⟨"a", 7⟩]⟩ (refusedSource.take 2)).2.2 hend

end Placement

end SicXe
