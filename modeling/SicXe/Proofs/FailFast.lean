import SicXe.Proofs.Program

/-!
# Stopping at the first fault

A run goes through its source line by line. At each line it stops with a fault that names the line,
whatever comes after it, or it goes on; after the end directive nothing is looked at any more. So
what a part of a source has decided, a success or a fault, stays decided when lines are added to it.
Only the fault of a source that ends too early can be mended by further lines.
-/

namespace SicXe

/-- A layout that a run can reach: an opened program lies within the limit, and only an opened
program has ended. -/
structure Layout.IsBounded (limit : Nat) (layout : Layout) : Prop where
  counter_le : layout.startSeen = true → layout.locationCounter ≤ limit
  startSeen_of_endSeen : layout.endSeen = true → layout.startSeen = true

namespace Placement

open Listing (Line)

variable {g : Grammar} {limit : Nat} {layout : Layout} {known final : SymbolTable}

/-- The error of a source that ends without an end directive: an entry point is missing, and no line
is to blame for it. -/
def endOfInput : Error := { fault := .missingEnd, line := "" }

/-- The result of a run with a line put before its listing. -/
def prepend (line : Option Line) (result : Except Error Placed × SymbolTable) :
    Except Error Placed × SymbolTable :=
  (result.1.map fun placed ↦ { placed with lines := line.toList ++ placed.lines }, result.2)

/-- A line in front of a listing does not change an error. -/
theorem prepend_eq_error_iff {line : Option Line} {result : Except Error Placed × SymbolTable}
    {e : Error} : prepend line result = (.error e, final) ↔ result = (.error e, final) := by
  rcases result with ⟨e' | placed, table⟩
  · simp [prepend, Except.map]
  · simp [prepend, Except.map]

/-! ### What a run does at one line -/

/-- The layout before the first line is bounded. -/
theorem isBounded_initial (limit : Nat) : Layout.initial.IsBounded limit where
  counter_le h := by cases h
  startSeen_of_endSeen h := by cases h

/-- A statement that is placed keeps the layout bounded. -/
theorem Effect.isBounded {s : Statement} {line : Option Line} {next : Layout}
    (h : Effect g limit layout s line next) (hb : layout.IsBounded limit) :
    next.IsBounded limit := by
  cases h with
  | opens _ _ _ _ _ ha =>
    have hle := (startAddress_eq_ok_iff.mp ha).2.2
    exact ⟨fun _ ↦ hle, fun _ ↦ rfl⟩
  | closes _ hs _ => exact ⟨fun _ ↦ hb.counter_le hs, fun _ ↦ hs⟩
  | puts _ hfit => exact ⟨fun _ ↦ hfit, hb.startSeen_of_endSeen⟩

/-- A bounded layout has nothing wrong with it after the end directive. The location counter is
checked before the end is, so lines after the end directive can be ignored only for this reason. -/
theorem standingFault?_of_endSeen (hb : layout.IsBounded limit) (he : layout.endSeen = true) :
    standingFault? limit layout = none := by
  have hs := hb.startSeen_of_endSeen he
  exact (standingFault?_eq_none_iff hs).mpr (hb.counter_le hs)

/-- Before the end directive, and with nothing wrong so far, a run places its first line; it stops
there with a fault or goes on from the layout after the line. -/
theorem placeFrom_cons (hf : standingFault? limit layout = none) (he : layout.endSeen = false)
    (known : SymbolTable) (tokens : List String) (rest : List (List String)) :
    placeFrom g limit layout known (tokens :: rest) =
      match placeLine g limit layout known tokens with
      | (.error fault, defined) => (.error { fault, line := Token.join tokens }, defined)
      | (.ok (line, next), defined) => prepend line (placeFrom g limit next defined rest) := by
  rw [placeFrom, hf]
  simp only [he, Bool.false_eq_true, ↓reduceIte]
  rcases placeLine g limit layout known tokens with ⟨fault | ⟨line, next⟩, defined⟩
  · rfl
  · dsimp only
    rcases placeFrom g limit next defined rest with ⟨e | placed, table⟩ <;> rfl

/-- Before the end directive a line either stops the run, with an error that names the line and
whatever lines follow, or the run goes on from a bounded layout. -/
theorem placeFrom_cons_cases (hb : layout.IsBounded limit) (he : layout.endSeen = false)
    (known : SymbolTable) (tokens : List String) :
    (∃ fault final, ∀ rest, placeFrom g limit layout known (tokens :: rest) =
        (.error { fault, line := Token.join tokens }, final)) ∨
      ∃ line next defined, next.IsBounded limit ∧
        ∀ rest, placeFrom g limit layout known (tokens :: rest) =
          prepend line (placeFrom g limit next defined rest) := by
  cases hf : standingFault? limit layout with
  | some fault =>
    refine Or.inl ⟨fault, known, fun rest ↦ ?_⟩
    simp only [placeFrom, hf]
  | none =>
    rcases hp : placeLine g limit layout known tokens with ⟨fault | ⟨line, next⟩, defined⟩
    · refine Or.inl ⟨fault, defined, fun rest ↦ ?_⟩
      simp [placeFrom, hf, he, hp]
    · obtain ⟨s, -, -, heffect⟩ := placeLine_eq_ok_iff.mp hp
      refine Or.inr ⟨line, next, defined, heffect.isBounded hb, fun rest ↦ ?_⟩
      simp only [placeFrom, hf, he, hp, Bool.false_eq_true, ↓reduceIte]
      rcases placeFrom g limit next defined rest with ⟨e | placed, table⟩ <;> rfl

/-- A source that ends before the end directive has the error of its end. -/
theorem placeFrom_nil (g : Grammar) (limit : Nat) (known : SymbolTable)
    (he : layout.endSeen = false) :
    placeFrom g limit layout known [] = (.error endOfInput, known) := by
  simp [placeFrom, he, endOfInput]

/-! ### What a run does -/

/-- Lines after a source change nothing, unless the source just ends too early. -/
theorem placeFrom_append (hb : layout.IsBounded limit) {source : List (List String)}
    (h : (placeFrom g limit layout known source).1 ≠ .error endOfInput)
    (more : List (List String)) :
    placeFrom g limit layout known (source ++ more) = placeFrom g limit layout known source := by
  induction source generalizing layout known with
  | nil =>
    cases he : layout.endSeen with
    | true =>
      have hf := standingFault?_of_endSeen hb he
      rw [placeFrom_of_endSeen he hf, placeFrom_of_endSeen he hf]
    | false =>
      rw [placeFrom_nil g limit known he] at h
      exact absurd rfl h
  | cons tokens rest ih =>
    cases he : layout.endSeen with
    | true =>
      have hf := standingFault?_of_endSeen hb he
      rw [placeFrom_of_endSeen he hf, placeFrom_of_endSeen he hf]
    | false =>
      rcases placeFrom_cons_cases (g := g) hb he known tokens with
        ⟨fault, final, hstop⟩ | ⟨line, next, defined, hnext, hgo⟩
      · rw [List.cons_append, hstop, hstop]
      · have hrest : (placeFrom g limit next defined rest).1 ≠ .error endOfInput := by
          intro hr
          rw [hgo, prepend, hr] at h
          exact h rfl
        rw [List.cons_append, hgo, hgo, ih hnext hrest]

/-- A run that fails for another reason than the end of its source fails at a line: all that comes
before the line just ends too early, and with the line the error is there. -/
theorem exists_failing_line (hb : layout.IsBounded limit) {source : List (List String)} {e : Error}
    (h : placeFrom g limit layout known source = (.error e, final)) (hne : e ≠ endOfInput) :
    ∃ k tokens, source[k]? = some tokens ∧ e.line = Token.join tokens ∧
      (∀ i ≤ k, (placeFrom g limit layout known (source.take i)).1 = .error endOfInput) ∧
      placeFrom g limit layout known (source.take (k + 1)) = (.error e, final) := by
  induction source generalizing layout known with
  | nil =>
    cases he : layout.endSeen with
    | true =>
      rw [placeFrom_of_endSeen he (standingFault?_of_endSeen hb he)] at h
      cases h
    | false =>
      rw [placeFrom_nil g limit known he] at h
      exact absurd (Except.error.inj (Prod.mk.inj h).1).symm hne
  | cons tokens rest ih =>
    cases he : layout.endSeen with
    | true =>
      rw [placeFrom_of_endSeen he (standingFault?_of_endSeen hb he)] at h
      cases h
    | false =>
      have hnil := congrArg Prod.fst (placeFrom_nil g limit known he)
      rcases placeFrom_cons_cases (g := g) hb he known tokens with
        ⟨fault, table, hstop⟩ | ⟨line, next, defined, hnext, hgo⟩
      · rw [hstop] at h
        obtain ⟨he, rfl⟩ := Prod.mk.inj h
        obtain rfl := Except.error.inj he
        refine ⟨0, tokens, rfl, rfl, ?_, hstop _⟩
        intro i hi
        obtain rfl := Nat.le_zero.mp hi
        exact hnil
      · rw [hgo, prepend_eq_error_iff] at h
        obtain ⟨k, other, hk, hline, hbefore, hat⟩ := ih hnext h
        refine ⟨k + 1, other, hk, hline, ?_, ?_⟩
        · intro i hi
          cases i with
          | zero => exact hnil
          | succ i =>
            have hprefix := hbefore i (Nat.le_of_succ_le_succ hi)
            rw [List.take_succ_cons, hgo, prepend, hprefix]
            rfl
        · rw [List.take_succ_cons, hgo, prepend_eq_error_iff]
          exact hat

/-- A source with a result other than the error of its end has this result with any lines after
it. -/
theorem run_append {options : Options} {table : OpTable} {source : List (List String)}
    {result : Except Error Placed} (h : run options table known source = (result, final))
    (hne : result ≠ .error endOfInput) (more : List (List String)) :
    run options table known (source ++ more) = (result, final) := by
  unfold run at h ⊢
  rw [← h]
  apply placeFrom_append (isBounded_initial options.limit)
  rw [h]
  exact hne

/-- A source that is placed, or that fails for another reason than its end, has the same result with
any lines after it. Such a failure is found at exactly one line, which the error names: what comes
before that line fails only for its end, and the source up to that line fails with this error. -/
theorem run_fails_fast (options : Options) (table : OpTable) (known : SymbolTable) :
    (∀ source more placed final, run options table known source = (.ok placed, final) →
        run options table known (source ++ more) = (.ok placed, final)) ∧
      (∀ source more e final, run options table known source = (.error e, final) →
        e ≠ endOfInput → run options table known (source ++ more) = (.error e, final)) ∧
      ∀ source e final, run options table known source = (.error e, final) → e ≠ endOfInput →
        ∃! k, ∃ tokens, source[k]? = some tokens ∧ e.line = " ".intercalate tokens ∧
          (∀ i ≤ k, (run options table known (source.take i)).1 = .error endOfInput) ∧
          run options table known (source.take (k + 1)) = (.error e, final) := by
  refine ⟨?_, ?_, ?_⟩
  · intro source more placed final h
    exact run_append h (by simp) more
  · intro source more e final h hne
    exact run_append h (by simpa using hne) more
  · intro source e final h hne
    obtain ⟨k, tokens, hk, hline, hbefore, hat⟩ :=
      exists_failing_line (isBounded_initial options.limit) h hne
    refine ⟨k, ⟨tokens, hk, hline, hbefore, hat⟩, ?_⟩
    -- Of two such lines the earlier one would have both this error and the error of the end.
    have exclude : ∀ m n, m < n →
        run options table known (source.take (m + 1)) = (.error e, final) →
        (∀ i ≤ n, (run options table known (source.take i)).1 = .error endOfInput) → False := by
      intro m n hlt hm hn
      have hboth := hn (m + 1) hlt
      rw [hm] at hboth
      exact hne (Except.error.inj hboth)
    rintro j ⟨-, -, -, hbefore', hat'⟩
    rcases Nat.lt_trichotomy j k with hlt | heq | hlt
    · exact (exclude j k hlt hat' hbefore).elim
    · exact heq
    · exact (exclude k j hlt hat hbefore').elim

/-- A source whose third line is refused after its second line has defined a label. -/
def refusedSource : List (List String) :=
  [["P", "START", "16"], ["A", "WORD", "1"], ["WORD", "0"]]

/-- The sample text is placed with a line after it as without. Lines after the refused source do not
matter either, and there is only one line with which its error appears, the last one. -/
theorem run_fails_fast_sample :
    run {} .standard .empty (Token.ofText Program.sampleText ++ [["A", "B"]]) =
        (.ok ⟨Program.sample.listing, Program.sample.layout⟩,
          SymbolTable.empty.append Program.sample.symbols) ∧
      ∃ e, e ≠ endOfInput ∧ e.line = "WORD 0" ∧
        run {} .standard .empty refusedSource = (.error e, ⟨[⟨"A", 16⟩]⟩) ∧
        run {} .standard .empty (refusedSource ++ [["A", "END"]]) =
          (.error e, ⟨[⟨"A", 16⟩]⟩) ∧
        ∃! k, ∃ tokens, refusedSource[k]? = some tokens ∧ e.line = " ".intercalate tokens ∧
          (∀ i ≤ k, (run {} .standard .empty (refusedSource.take i)).1 = .error endOfInput) ∧
          run {} .standard .empty (refusedSource.take (k + 1)) =
            (.error e, ⟨[⟨"A", 16⟩]⟩) := by
  have hrun : run {} .standard .empty refusedSource =
      (.error ⟨.operand (.outOfRange 1 maxField), "WORD 0"⟩, ⟨[⟨"A", 16⟩]⟩) := by
    decide +kernel
  obtain ⟨hplaced, hmore, hline⟩ := run_fails_fast {} .standard .empty
  exact ⟨hplaced _ _ _ _ Program.sample_run, _, by decide, rfl, hrun,
    hmore _ _ _ _ hrun (by decide), hline _ _ _ hrun (by decide)⟩

end Placement

end SicXe
