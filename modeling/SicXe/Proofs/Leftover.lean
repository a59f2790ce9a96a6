import SicXe.Proofs.FailFast
import SicXe.Proofs.Resolution

/-!
# Symbols that a run leaves

A run adds labels to the symbols that it is given while it goes through its source, and what it has
added stays when it fails. A label is added between reading its line and placing it, so a line whose
operands are refused leaves its label, and a line that cannot be read or that repeats a label leaves
nothing. The main statement gives the symbols after every run, whether it succeeds or fails: the
given ones, untouched, and then the labels of the lines that were reached, in order, each with the
location counter before its line.
-/

namespace SicXe

/-! ### Labels of lines -/

namespace Grammar

variable (g : Grammar)

/-- The number of bytes that a token line takes up. -/
def lineSize (tokens : List String) : Nat :=
  match (g.statement? tokens).map (Placement.content g) with
  | some (.ok c) => c.size
  | _ => 0

/-- The symbol that a token line at an address defines. -/
def lineSymbol? (address : Nat) (tokens : List String) : Option Symbol :=
  Program.symbol? (g.lineLabel? tokens, address)

/-- The symbols that token lines define one after another from an address on. -/
def definitions (address : Nat) : List (List String) → List Symbol
  | [] => []
  | tokens :: rest =>
    (g.lineSymbol? address tokens).toList ++ definitions (address + g.lineSize tokens) rest

/-- A source whose first line opens a program at an address. -/
def OpensAt (limit : Nat) (source : List (List String)) (start : Nat) : Prop :=
  ∃ tokens ∈ source[0]?, ∃ name, g.IsStart limit tokens name start

/-- A token line that can be read and whose label, if it has one, is new. -/
def definesNew (known : SymbolTable) (tokens : List String) : Bool :=
  (g.statement? tokens).any fun s ↦ s.label.all fun name ↦ !known.contains name

/-- Every labelled line defines its label. -/
theorem map_name_definitions (address : Nat) (lines : List (List String)) :
    (g.definitions address lines).map Symbol.name = lines.filterMap g.lineLabel? := by
  induction lines generalizing address with
  | nil => rfl
  | cons tokens rest ih =>
    rw [definitions, List.map_append, ih]
    cases hl : g.lineLabel? tokens with
    | none => simp [lineSymbol?, hl, Program.symbol?]
    | some name => simp [lineSymbol?, hl, Program.symbol?]

end Grammar

namespace Placement

open Listing (Line)

variable {g : Grammar} {limit : Nat} {layout next : Layout} {known defined : SymbolTable}
  {tokens : List String} {line : Option Line}

/-! ### What one line leaves -/

/-- A line that cannot be read or that repeats a label adds nothing. Before the start directive no
line does. -/
theorem placeLine_snd_of_not (h : g.definesNew known tokens = false ∨ layout.startSeen = false) :
    (placeLine g limit layout known tokens).2 = known := by
  unfold Grammar.definesNew at h
  unfold placeLine Grammar.parse
  cases hs : g.statement? tokens with
  | none => rfl
  | some s =>
    cases hl : s.label with
    | none => simp [defineLabel, hl]
    | some name =>
      cases hk : known.contains name with
      | true => simp [defineLabel, hk, hl]
      | false =>
        have hseen : layout.startSeen = false := by simpa [hs, hl, hk] using h
        simp [defineLabel, hk, hl, hseen]

/-- After the start directive, a line that can be read and whose label is new adds the label at the
location counter, also when the line is then refused. -/
theorem placeLine_snd_of_definesNew (hs : layout.startSeen = true)
    (h : g.definesNew known tokens = true) :
    (placeLine g limit layout known tokens).2 =
      known.append (g.lineSymbol? layout.locationCounter tokens).toList := by
  unfold Grammar.definesNew at h
  unfold placeLine Grammar.parse Grammar.lineSymbol? Grammar.lineLabel?
  cases hread : g.statement? tokens with
  | none => simp [hread] at h
  | some s =>
    cases hl : s.label with
    | none => simp [defineLabel, hl, Program.symbol?]
    | some name =>
      have hk : known.contains name = false := by simpa [hread, hl] using h
      simp only [defineLabel, hl, hk, hs, Bool.false_eq_true, ↓reduceIte, Option.bind_some,
        Program.symbol?, Option.map_some, Option.toList_some]
      rfl

/-- A line that is placed could be read and had a new label. -/
theorem definesNew_of_placeLine
    (h : placeLine g limit layout known tokens = (.ok (line, next), defined)) :
    g.definesNew known tokens = true := by
  obtain ⟨s, hs, hd, -⟩ := placeLine_eq_ok_iff.mp h
  unfold Grammar.definesNew
  cases hl : s.label with
  | none => simp [hs, hl]
  | some name =>
    simp only [defineLabel, hl] at hd
    split at hd
    · cases hd
    · next hk => simpa [hs, hl] using hk

/-- After the start directive, a line that is placed moves the location counter by its size, and it
ends the program exactly when it is an end directive. -/
theorem counter_of_placeLine (hs : layout.startSeen = true) (he : layout.endSeen = false)
    (h : placeLine g limit layout known tokens = (.ok (line, next), defined)) :
    next.startSeen = true ∧
      next.locationCounter = layout.locationCounter + g.lineSize tokens ∧
      (next.endSeen = true ↔ g.lineOperation? tokens = some (.directive .finish)) := by
  obtain ⟨s, hread, -, heffect⟩ := placeLine_eq_ok_iff.mp h
  simp only [Grammar.lineSize, Grammar.lineOperation?, hread, Option.map_some, Option.bind_some]
  cases heffect with
  | opens _ _ _ _ hunseen => rw [hs] at hunseen; cases hunseen
  | closes ho =>
    have hc : content g s = .error .unknownMnemonic := by simp [content, ho]
    simp [Layout.closeAt, hs, ho, hc]
  | puts hc =>
    have ho : g.operation? s.mnemonic ≠ some (.directive .finish) := by
      intro ho
      simp [content, ho] at hc
    simp [hs, he, ho, hc]

/-! ### The line at which a run fails -/

/-- A way of placing sources fails at the line at a position: what comes before the line only ends
too early, and with the line there is an error that names it, whatever lines follow. -/
structure FailsAt (place : List (List String) → Except Error Placed) (source : List (List String))
    (e : Error) (k : Nat) : Prop where
  line_eq : source[k]?.map Token.join = some e.line
  before : ∀ i ≤ k, place (source.take i) = .error endOfInput
  stops : ∀ more, place (source.take (k + 1) ++ more) = .error e

namespace FailsAt

variable {place after : List (List String) → Except Error Placed}
  {source rest : List (List String)} {e : Error} {k : Nat}

/-- The error is that of the whole source. -/
theorem whole (h : FailsAt place source e k) : place source = .error e := by
  have hstops := h.stops (source.drop (k + 1))
  rwa [List.take_append_drop] at hstops

/-- A first line that is refused is where placing fails. -/
theorem first (hnil : place [] = .error endOfInput) (hline : e.line = Token.join tokens)
    (hstop : ∀ more, place (tokens :: more) = .error e) : FailsAt place (tokens :: rest) e 0 where
  line_eq := by simp [hline]
  before i hi := by
    obtain rfl : i = 0 := by omega
    exact hnil
  stops more := hstop _

/-- If placing goes on after a line, it fails at a line after that one where it fails from there. -/
theorem cons (hnil : place [] = .error endOfInput)
    (hgo : ∀ more e, after more = .error e → place (tokens :: more) = .error e)
    (h : FailsAt after rest e k) : FailsAt place (tokens :: rest) e (k + 1) where
  line_eq := by simpa using h.line_eq
  before i hi := by
    cases i with
    | zero => exact hnil
    | succ i =>
      rw [List.take_succ_cons]
      apply hgo
      exact h.before i (by omega)
  stops more := by
    rw [List.take_succ_cons, List.cons_append]
    exact hgo _ _ (h.stops more)

end FailsAt

section

variable {rest : List (List String)} {fault : Fault} {final : SymbolTable}

/-- A run that is refused at its first line, whatever lines follow, fails there. -/
theorem failsAt_first (he : layout.endSeen = false)
    (hstop : ∀ more, placeFrom g limit layout known (tokens :: more) =
      (.error { fault, line := Token.join tokens }, final)) :
    FailsAt (fun lines ↦ (placeFrom g limit layout known lines).1) (tokens :: rest)
      { fault, line := Token.join tokens } 0 := by
  apply FailsAt.first
  · rw [placeFrom_nil g limit known he]
  · rfl
  · intro more
    rw [hstop]

/-- A run that goes on after its first line has the errors of what follows. -/
theorem error_of_prepend (hgo : ∀ more, placeFrom g limit layout known (tokens :: more) =
      prepend line (placeFrom g limit next defined more)) (more : List (List String)) (e : Error)
    (h : (placeFrom g limit next defined more).1 = .error e) :
    (placeFrom g limit layout known (tokens :: more)).1 = .error e := by
  rw [hgo, prepend, h]
  rfl

end

/-! ### What a run leaves -/

/-- How a run stops, and how many lines have been reached by then: all lines up to the end
directive, all lines of a source that ends too early, or the lines up to the one that is refused.
That line itself counts if it can be read and its label is new to the symbols before it. -/
inductive Stops (g : Grammar) (place : List (List String) → Except Error Placed)
    (before : Nat → SymbolTable) (source : List (List String)) : Except Error Placed → Nat → Prop
  | placed {placed : Placed} {k : Nat} : g.EndsAt source k →
      Stops g place before source (.ok placed) (k + 1)
  | exhausted : Stops g place before source (.error endOfInput) source.length
  | refused {e : Error} {k : Nat} {tokens : List String} : FailsAt place source e k →
      source[k]? = some tokens →
      Stops g place before source (.error e)
        (if g.definesNew (before k) tokens then k + 1 else k)

/-- With a line in front that is no end directive and after which placing goes on, placing stops one
line later. -/
theorem Stops.cons {place later : List (List String) → Except Error Placed}
    {before after : Nat → SymbolTable} {rest : List (List String)}
    {result : Except Error Placed} {reached : Nat} {f : Placed → Placed}
    (hnil : place [] = .error endOfInput)
    (hgo : ∀ more e, later more = .error e → place (tokens :: more) = .error e)
    (hbefore : ∀ k, before (k + 1) = after k)
    (hend : g.lineOperation? tokens ≠ some (.directive .finish))
    (h : Stops g later after rest result reached) :
    Stops g place before (tokens :: rest) (result.map f) (reached + 1) := by
  cases h with
  | placed hk => exact .placed (hk.cons hend)
  | exhausted => exact .exhausted
  | @refused e k other hfails hother =>
    have hstops : Stops g place before (tokens :: rest) (.error e)
        (if g.definesNew (before (k + 1)) other then k + 1 + 1 else k + 1) :=
      .refused (hfails.cons hnil hgo) (by simpa using hother)
    rw [hbefore] at hstops
    split
    · next hnew =>
      rw [if_pos hnew] at hstops
      exact hstops
    · next hnew =>
      rw [if_neg hnew] at hstops
      exact hstops

/-- A run of an opened program stops after a number of lines, and leaves the symbols that these
define after those that it was given. -/
theorem placeFrom_leaves (hb : layout.IsBounded limit) (hs : layout.startSeen = true)
    (he : layout.endSeen = false) (known : SymbolTable) (source : List (List String)) :
    ∃ reached,
      Stops g (fun lines ↦ (placeFrom g limit layout known lines).1)
        (fun k ↦ known.append (g.definitions layout.locationCounter (source.take k))) source
        (placeFrom g limit layout known source).1 reached ∧
      (placeFrom g limit layout known source).2 =
        known.append (g.definitions layout.locationCounter (source.take reached)) := by
  induction source generalizing layout known with
  | nil =>
    rw [placeFrom_nil g limit known he]
    exact ⟨0, .exhausted, by simp [Grammar.definitions]⟩
  | cons tokens rest ih =>
    have hf := (standingFault?_eq_none_iff hs).mpr (hb.counter_le hs)
    have hnil : (placeFrom g limit layout known []).1 = .error endOfInput := by
      rw [placeFrom_nil g limit known he]
    have hstep := placeFrom_cons (g := g) hf he known tokens
    have hone : known.append (g.definitions layout.locationCounter [tokens]) =
        known.append (g.lineSymbol? layout.locationCounter tokens).toList := by
      simp [Grammar.definitions]
    rcases hp : placeLine g limit layout known tokens with ⟨fault | ⟨line, next⟩, defined⟩
    · -- A refused line leaves its label exactly when it counts as reached.
      simp only [hp] at hstep
      refine ⟨_, by rw [hstep]; exact .refused (failsAt_first he hstep) rfl, ?_⟩
      rw [hstep, show defined = (placeLine g limit layout known tokens).2 by rw [hp]]
      simp only [List.take_zero, Grammar.definitions, SymbolTable.append_nil]
      split
      · next hnew =>
        rw [placeLine_snd_of_definesNew hs hnew]
        exact hone.symm
      · next hnew =>
        rw [placeLine_snd_of_not (Or.inl (Bool.eq_false_of_not_eq_true hnew))]
        simp [Grammar.definitions]
    · simp only [hp] at hstep
      obtain ⟨hseen, hcounter, hend⟩ := counter_of_placeLine hs he hp
      obtain ⟨s, -, -, heffect⟩ := placeLine_eq_ok_iff.mp hp
      have hbounded := heffect.isBounded hb
      have hdefined : defined =
          known.append (g.lineSymbol? layout.locationCounter tokens).toList := by
        rw [← placeLine_snd_of_definesNew hs (definesNew_of_placeLine hp), hp]
      cases hn : next.endSeen with
      | true =>
        have hrest : placeFrom g limit layout known (tokens :: rest) =
            (.ok { lines := line.toList ++ [], layout := next }, defined) := by
          rw [hstep, placeFrom_of_endSeen hn (standingFault?_of_endSeen hbounded hn)]
          rfl
        rw [hrest]
        refine ⟨1, .placed ⟨by simpa using hend.mp hn, by simp⟩, ?_⟩
        rw [List.take_succ_cons, List.take_zero, hone, hdefined]
      | false =>
        have hfinish : g.lineOperation? tokens ≠ some (.directive .finish) := by
          intro hfinish
          rw [hend.mpr hfinish] at hn
          cases hn
        have hsymbols : ∀ k,
            known.append (g.definitions layout.locationCounter ((tokens :: rest).take (k + 1))) =
              defined.append (g.definitions next.locationCounter (rest.take k)) := by
          intro k
          rw [List.take_succ_cons, Grammar.definitions, hdefined, hcounter,
            SymbolTable.append_append]
        obtain ⟨reached, hstops, hfinal⟩ := ih hbounded hseen hn defined
        refine ⟨reached + 1, ?_, ?_⟩
        · rw [hstep, prepend]
          exact hstops.cons hnil (error_of_prepend hstep) hsymbols hfinish
        · rw [hstep, prepend, hfinal, hsymbols]

/-! ### The first line -/

/-- Nothing is wrong before the first line. -/
theorem standingFault?_initial (limit : Nat) : standingFault? limit .initial = none := by
  simp [standingFault?, Layout.initial]

/-- A line that can open a program does so, unless its label is known. In either case nothing is
defined. -/
theorem placeLine_of_isStart {name : String} {start : Nat} (h : g.IsStart limit tokens name start)
    (known : SymbolTable) :
    placeLine g limit .initial known tokens =
      if known.contains name then (.error .duplicateLabel, known)
      else (.ok (some (.start name start), Layout.initial.openAt start), known) := by
  obtain ⟨s, operand, hs, ho, hl, hop, ha⟩ := h
  split
  · next hk => simp [placeLine, Grammar.parse, hs, defineLabel, hl, hk]
  · next hk =>
    apply placeLine_eq_ok_iff.mpr
    exact ⟨s, hs, by simp [defineLabel, hl, hk, Layout.initial], .opens ho hl hop rfl rfl ha⟩

/-- A run whose first line opens a program stops after a number of lines, and leaves the symbols
that those after the first one define. -/
theorem placeFrom_leaves_of_opensAt {source : List (List String)} {start : Nat}
    (h : g.OpensAt limit source start) (known : SymbolTable) :
    ∃ reached,
      Stops g (fun lines ↦ (placeFrom g limit .initial known lines).1)
        (fun k ↦ known.append (g.definitions start ((source.take k).drop 1))) source
        (placeFrom g limit .initial known source).1 reached ∧
      (placeFrom g limit .initial known source).2 =
        known.append (g.definitions start ((source.take reached).drop 1)) := by
  obtain ⟨first, hfirst, name, hstart⟩ := h
  cases source with
  | nil => cases hfirst
  | cons tokens rest =>
    obtain rfl := Option.some.inj hfirst
    have hnil : (placeFrom g limit .initial known []).1 = .error endOfInput := rfl
    have hstep := placeFrom_cons (g := g) (standingFault?_initial limit) rfl known tokens
    have hline := placeLine_of_isStart hstart known
    by_cases hk : known.contains name = true
    · rw [if_pos hk] at hline
      simp only [hline] at hstep
      refine ⟨_, by rw [hstep]; exact .refused (failsAt_first rfl hstep) rfl, ?_⟩
      rw [hstep]
      split <;> simp [Grammar.definitions]
    · rw [if_neg hk] at hline
      simp only [hline] at hstep
      obtain ⟨s, -, -, heffect⟩ := placeLine_eq_ok_iff.mp hline
      have hfinish : g.lineOperation? tokens ≠ some (.directive .finish) := by
        obtain ⟨s, operand, hs, ho, -⟩ := hstart
        simp [Grammar.lineOperation?, hs, ho]
      obtain ⟨reached, hstops, hfinal⟩ :=
        placeFrom_leaves (g := g) (heffect.isBounded (isBounded_initial limit)) rfl rfl known rest
      refine ⟨reached + 1, ?_, ?_⟩
      · rw [hstep, prepend]
        exact hstops.cons hnil (error_of_prepend hstep) (fun k ↦ rfl) hfinish
      · rw [hstep, prepend, hfinal]
        rfl

/-- A run whose first line does not open a program fails at its first or second line and leaves the
symbols as they were. -/
theorem placeFrom_leaves_of_not_opensAt {source : List (List String)}
    (h : ¬ ∃ start, g.OpensAt limit source start) (known : SymbolTable) :
    (placeFrom g limit .initial known source).2 = known := by
  cases source with
  | nil => rfl
  | cons tokens rest =>
    have hstep := placeFrom_cons (g := g) (standingFault?_initial limit) rfl known tokens rest
    have hleft : (placeLine g limit .initial known tokens).2 = known :=
      placeLine_snd_of_not (Or.inr rfl)
    rcases hp : placeLine g limit .initial known tokens with ⟨fault | ⟨line, next⟩, defined⟩
    · rw [hp] at hstep hleft
      rw [hstep]
      exact hleft
    · simp only [hp] at hstep hleft
      subst hleft
      rw [hstep, prepend]
      obtain ⟨s, hs, -, heffect⟩ := placeLine_eq_ok_iff.mp hp
      cases heffect with
      | opens ho hl hop _ _ ha =>
        exact absurd ⟨_, tokens, rfl, _, s, _, hs, ho, hl, hop, ha⟩ h
      | closes _ hseen => cases hseen
      | @puts c hc =>
        -- Memory has been taken up, so the next line is refused whatever it says.
        have hpos := (content_wellFormed hc).size_pos
        cases rest with
        | nil => rfl
        | cons second others =>
          have hne : c.size ≠ 0 := by omega
          simp [placeFrom, standingFault?, Layout.initial, hne]

/-- The result of a run without the symbols that it leaves. -/
def result (options : Options) (table : OpTable) (known : SymbolTable)
    (source : List (List String)) : Except Error Placed :=
  (run options table known source).1

/-- What a run leaves, whether it succeeds or fails. If the first line opens a program, the symbols
are the given ones and then those that the lines reached after the first one define: each labelled
line in order, at the start address plus the sizes of the lines before it. If it does not, the
symbols are the given ones. A label is the first token of its line in upper case. -/
theorem run_leaves_symbols (options : Options) (table : OpTable) (known : SymbolTable)
    (source : List (List String)) :
    (∀ start, (grammar options table).OpensAt options.limit source start →
      let after (n : Nat) := known.append
        ((grammar options table).definitions start ((source.take n).drop 1))
      ∃ reached,
        Stops (grammar options table) (result options table known) after source
          (result options table known source) reached ∧
        (run options table known source).2 = after reached ∧
        (after reached).entries.map Symbol.name = known.entries.map Symbol.name ++
          ((source.take reached).drop 1).filterMap (grammar options table).lineLabel?) ∧
      ((¬ ∃ start, (grammar options table).OpensAt options.limit source start) →
        (run options table known source).2 = known) ∧
      ∀ tokens name, (grammar options table).lineLabel? tokens = some name →
        ∃ token rest, tokens = token :: rest ∧ (grammar options table).isLabel token = true ∧
          name = Text.uppercase token := by
  refine ⟨?_, ?_, ?_⟩
  · intro start hopens
    obtain ⟨reached, hstops, hfinal⟩ := placeFrom_leaves_of_opensAt hopens known
    refine ⟨reached, hstops, hfinal, ?_⟩
    simp only [SymbolTable.append, List.map_append, Grammar.map_name_definitions]
  · intro hopens
    exact placeFrom_leaves_of_not_opensAt hopens known
  · intro tokens name hname
    obtain ⟨s, hs, hl⟩ := Option.bind_eq_some_iff.mp hname
    exact Grammar.exists_isLabel hs hl

/-- A source whose third line is refused after its label has been defined. -/
def labelledRefusal : List (List String) :=
  [["P", "START", "16"], ["A", "WORD", "1"], ["B", "WORD", "0"], ["C", "END"]]

/-- The refused line leaves its label after the one before it, and the line after it leaves none.
Without a start directive nothing is left. -/
theorem run_leaves_symbols_refused :
    let known : SymbolTable := ⟨[⟨"K", 7⟩]⟩
    let after (n : Nat) := known.append
      ((grammar {} .standard).definitions 16 ((labelledRefusal.take n).drop 1))
    (∃ reached,
      Stops (grammar {} .standard) (result {} .standard known) after labelledRefusal
        (result {} .standard known labelledRefusal) reached ∧
      (run {} .standard known labelledRefusal).2 = after reached ∧
      (after reached).entries.map Symbol.name = known.entries.map Symbol.name ++
        ((labelledRefusal.take reached).drop 1).filterMap (grammar {} .standard).lineLabel?) ∧
      (run {} .standard known labelledRefusal).2 = ⟨[⟨"K", 7⟩, ⟨"A", 16⟩, ⟨"B", 19⟩]⟩ ∧
      (run {} .standard known (labelledRefusal.drop 1)).2 = known := by
  have hopens : (grammar {} .standard).OpensAt ({} : Options).limit labelledRefusal 16 :=
    ⟨_, rfl, "P", ⟨some "P", "START", .one "16"⟩, "16", by decide +kernel, by decide +kernel, rfl,
      rfl, by cbv⟩
  have hnot : ¬ ∃ start, (grammar {} .standard).OpensAt ({} : Options).limit
      (labelledRefusal.drop 1) start := by
    rintro ⟨start, tokens, hfirst, name, s, operand, hs, ho, -⟩
    obtain rfl := Option.some.inj hfirst
    have hread : (grammar {} .standard).statement? ["A", "WORD", "1"] =
        some ⟨some "A", "WORD", .one "1"⟩ := by
      decide +kernel
    rw [hread] at hs
    obtain rfl := Option.some.inj hs
    revert ho
    decide +kernel
  have hrun : (run {} .standard ⟨[⟨"K", 7⟩]⟩ labelledRefusal).2 =
      ⟨[⟨"K", 7⟩, ⟨"A", 16⟩, ⟨"B", 19⟩]⟩ := by
    decide +kernel
  exact ⟨(run_leaves_symbols {} .standard ⟨[⟨"K", 7⟩]⟩ labelledRefusal).1 16 hopens, hrun,
    (run_leaves_symbols {} .standard ⟨[⟨"K", 7⟩]⟩ (labelledRefusal.drop 1)).2.1 hnot⟩

end Placement

end SicXe
