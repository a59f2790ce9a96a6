import SicXe.Proofs.Content

/-!
# Programs and their placement

A program is what the token lines of a source say once addresses are left aside: a name and a
start address, items that take up memory, and an end with an optional label and entry address.
Where everything stands follows from the sizes of the items alone. The main statement is that
placing a source succeeds exactly when the source reads as a program that fits below the highest
address and whose labels are new, and that the result is then the placement of that program.
-/

namespace SicXe

open Listing (Content Line)

/-- A statement that takes up memory. -/
structure Item where
  /-- The label in front of the statement. -/
  label : Option String
  /-- What the statement puts into memory. -/
  content : Content
  deriving DecidableEq, Repr

/-- A source apart from the addresses of its lines. -/
structure Program where
  /-- The label of the start directive. -/
  name : String
  /-- The address of the start directive. -/
  start : Nat
  /-- The statements between the two directives. -/
  items : List Item
  /-- The label of the end directive. -/
  endLabel : Option String
  /-- The address of the end directive. -/
  entry : Option Nat
  deriving DecidableEq, Repr

namespace SymbolTable

/-- The table with further entries after its own. -/
def append (table : SymbolTable) (added : List Symbol) : SymbolTable :=
  { entries := table.entries ++ added }

/-- Entries that can be added one after another, each with a name that is new at its turn. -/
def Fresh (table : SymbolTable) : List Symbol → Prop
  | [] => True
  | entry :: rest =>
    table.contains entry.name = false ∧ (table.insert entry.name entry.address).Fresh rest

/-- Adding no entries changes nothing. -/
@[simp] theorem append_nil (table : SymbolTable) : table.append [] = table := by
  simp [append]

/-- Entries are added one after another. -/
theorem append_append (table : SymbolTable) (xs ys : List Symbol) :
    (table.append xs).append ys = table.append (xs ++ ys) := by
  simp [append, List.append_assoc]

/-- Entries are new when the first ones are and the others are new after them. -/
theorem fresh_append_iff {table : SymbolTable} {xs ys : List Symbol} :
    table.Fresh (xs ++ ys) ↔ table.Fresh xs ∧ (table.append xs).Fresh ys := by
  induction xs generalizing table with
  | nil => simp [Fresh]
  | cons x xs ih =>
    have hi : table.insert x.name x.address = table.append [x] := rfl
    rw [List.cons_append, Fresh, Fresh, ih, hi, append_append, List.singleton_append, and_assoc]

end SymbolTable

namespace Program

/-! ### Addresses -/

/-- The number of bytes that items take up. -/
def extent (items : List Item) : Nat := (items.map fun item ↦ item.content.size).sum

/-- The listing lines of items that stand one after another from an address on. -/
def linesFrom (address : Nat) : List Item → List Line
  | [] => []
  | item :: rest => .body address item.content :: linesFrom (address + item.content.size) rest

/-- The label slots of items and of the end directive after them, with the address of each. -/
def slotsFrom (address : Nat) (last : Option String) : List Item → List (Option String × Nat)
  | [] => [(last, address)]
  | item :: rest => (item.label, address) :: slotsFrom (address + item.content.size) last rest

/-- The symbol that a label slot defines. -/
def symbol? (slot : Option String × Nat) : Option Symbol :=
  slot.1.map fun name ↦ ⟨name, slot.2⟩

/-- The symbols that label slots define. -/
def symbolsOf (slots : List (Option String × Nat)) : List Symbol := slots.filterMap symbol?

/-- The label slots of a program after its start directive. -/
def slots (p : Program) : List (Option String × Nat) := slotsFrom p.start p.endLabel p.items

/-- The symbols that a program defines. The label of the start directive is not among them. -/
def symbols (p : Program) : List Symbol := symbolsOf p.slots

/-- The address after the last item. -/
def finish (p : Program) : Nat := p.start + extent p.items

/-- The listing of a program. -/
def listing (p : Program) : List Line := .start p.name p.start :: linesFrom p.start p.items

/-- The layout of a program. -/
def layout (p : Program) : Layout :=
  { locationCounter := p.finish
    startAddress := p.start
    entryAddress := p.entry.getD p.start
    startSeen := true
    endSeen := true }

/-- Items take up what the first one and the others take up. -/
theorem extent_cons (item : Item) (rest : List Item) :
    extent (item :: rest) = item.content.size + extent rest := by
  rw [extent, List.map_cons, List.sum_cons, extent]

/-- The symbol of the first slot comes before those of the others. -/
theorem symbolsOf_cons (slot : Option String × Nat) (rest : List (Option String × Nat)) :
    symbolsOf (slot :: rest) = (symbol? slot).toList ++ symbolsOf rest := by
  cases h : symbol? slot with
  | none => simp [symbolsOf, h]
  | some entry => simp [symbolsOf, h]

/-- A single slot defines at most one symbol. -/
theorem symbolsOf_singleton (slot : Option String × Nat) :
    symbolsOf [slot] = (symbol? slot).toList := by
  rw [symbolsOf_cons]
  exact List.append_nil _

end Program

/-! ### Reading token lines -/

namespace Grammar

open Placement (startAddress entryAddress)

variable (g : Grammar) (limit : Nat)

/-- A token line that opens a program. -/
def IsStart (tokens : List String) (name : String) (address : Nat) : Prop :=
  ∃ s operand, g.statement? tokens = some s ∧
    g.operation? s.mnemonic = some (.directive .start) ∧ s.label = some name ∧
    s.operands = .one operand ∧ startAddress limit operand = .ok address

/-- A token line that takes up memory. -/
def IsItem (tokens : List String) (item : Item) : Prop :=
  ∃ s, g.statement? tokens = some s ∧ s.label = item.label ∧
    Placement.content g s = .ok item.content

/-- The entry address that operands of the end directive ask for. -/
def Entry : Operands → Option Nat → Prop
  | .none, entry => entry = none
  | .one operand, entry => ∃ address, entryAddress limit operand = .ok address ∧
      entry = some address
  | .two _ _, _ => False

/-- A token line that closes a program. -/
def IsEnd (tokens : List String) (label : Option String) (entry : Option Nat) : Prop :=
  ∃ s, g.statement? tokens = some s ∧ g.operation? s.mnemonic = some (.directive .finish) ∧
    s.label = label ∧ Entry limit s.operands entry

/-- Token lines that are items up to the first one that closes the program. -/
inductive Body : List (List String) → List Item → Option String → Option Nat → Prop
  | close {tokens : List String} {rest : List (List String)} {label : Option String}
      {entry : Option Nat} : g.IsEnd limit tokens label entry → Body (tokens :: rest) [] label entry
  | item {tokens : List String} {rest : List (List String)} {item : Item} {items : List Item}
      {label : Option String} {entry : Option Nat} :
      g.IsItem tokens item → Body rest items label entry →
      Body (tokens :: rest) (item :: items) label entry

/-- The source reads as the program: a line that opens it, then its body. -/
def Reads (source : List (List String)) (p : Program) : Prop :=
  ∃ first rest, source = first :: rest ∧ g.IsStart limit first p.name p.start ∧
    g.Body limit rest p.items p.endLabel p.entry

end Grammar

namespace Placement

variable {g : Grammar} {limit : Nat}

/-! ### What one line can do -/

/-- The effect of a statement: it opens the program, closes it or puts content at the location
counter. -/
inductive Effect (g : Grammar) (limit : Nat) (layout : Layout) (s : Statement) :
    Option Line → Layout → Prop
  | opens {name operand : String} {address : Nat} :
      g.operation? s.mnemonic = some (.directive .start) → s.label = some name →
      s.operands = .one operand → layout.locationCounter = 0 → layout.startSeen = false →
      startAddress limit operand = .ok address →
      Effect g limit layout s (some (.start name address)) (layout.openAt address)
  | closes {entry : Option Nat} :
      g.operation? s.mnemonic = some (.directive .finish) → layout.startSeen = true →
      Grammar.Entry limit s.operands entry →
      Effect g limit layout s none (layout.closeAt (entry.getD layout.startAddress))
  | puts {c : Content} :
      content g s = .ok c → layout.locationCounter + c.size ≤ limit →
      Effect g limit layout s (some (.body layout.locationCounter c))
        { layout with locationCounter := layout.locationCounter + c.size }

private theorem placeStart_eq_ok {layout next : Layout} {label : Option String}
    {operands : Operands} {line : Line}
    (h : placeStart limit layout label operands = .ok (line, next)) :
    ∃ name operand address, label = some name ∧ operands = .one operand ∧
      layout.locationCounter = 0 ∧ layout.startSeen = false ∧
      startAddress limit operand = .ok address ∧ line = .start name address ∧
      next = layout.openAt address := by
  unfold placeStart at h
  split at h
  · cases h
  · next operand hs =>
    have ho := Operands.single_eq_ok_iff.mp hs
    split at h
    · cases h
    · next hc =>
      simp only [ne_eq, not_or, not_not, Bool.not_eq_true] at hc
      split at h
      · cases h
      · next address ha =>
        split at h
        · cases h
        · next name =>
          obtain ⟨rfl, rfl⟩ := Prod.mk.inj (Except.ok.inj h)
          exact ⟨name, operand, address, rfl, ho, hc.1, hc.2, ha, rfl, rfl⟩

private theorem placeEnd_eq_ok_iff {layout next : Layout} {operands : Operands} :
    placeEnd limit layout operands = .ok next ↔
      layout.startSeen = true ∧ ∃ entry, Grammar.Entry limit operands entry ∧
        next = layout.closeAt (entry.getD layout.startAddress) := by
  cases operands with
  | none =>
    simp only [placeEnd, Grammar.Entry, exists_eq_left, Option.getD_none]
    split
    · next hs => simp [hs, eq_comm]
    · next hs => simp [hs]
  | one operand =>
    simp only [placeEnd, Grammar.Entry]
    split
    · next hs =>
      rw [map_eq_ok_iff]
      constructor
      · rintro ⟨address, ha, rfl⟩
        exact ⟨hs, some address, ⟨address, ha, rfl⟩, rfl⟩
      · rintro ⟨-, entry, ⟨address, ha, rfl⟩, rfl⟩
        exact ⟨address, ha, rfl⟩
    · next hs => simp [hs]
  | two a b => simp [placeEnd, Grammar.Entry]

/-- Content is placed exactly when it fits, at the location counter, which moves behind it. -/
theorem placeContent_eq_ok_iff {layout next : Layout} {c : Content} {line : Line} :
    placeContent limit layout c = .ok (line, next) ↔
      layout.locationCounter + c.size ≤ limit ∧ line = .body layout.locationCounter c ∧
        next = { layout with locationCounter := layout.locationCounter + c.size } := by
  rw [placeContent, map_eq_ok_iff]
  constructor
  · rintro ⟨mid, hm, he⟩
    obtain ⟨hb, rfl⟩ := (Layout.allocate_eq_ok_iff limit layout mid c.size).mp hm
    obtain ⟨rfl, rfl⟩ := Prod.mk.inj he
    exact ⟨hb, rfl, rfl⟩
  · rintro ⟨hb, rfl, rfl⟩
    exact ⟨_, (Layout.allocate_eq_ok_iff limit layout _ c.size).mpr ⟨hb, rfl⟩, rfl⟩

/-- Content is placed in one way, whatever the statement that it comes from. -/
theorem placeStatement_of_content {layout : Layout} {s : Statement} {c : Content}
    (h : content g s = .ok c) :
    placeStatement g limit layout s =
      (placeContent limit layout c).map fun (line, next) ↦ (some line, next) := by
  unfold content at h
  unfold placeStatement
  split at h
  · next kind hk =>
    simp only [hk, h]
    rfl
  · next d hd =>
    simp only [hd, h]
    rfl
  · cases h

/-- A statement is placed exactly with one of the three effects. -/
theorem placeStatement_eq_ok_iff {layout next : Layout} {s : Statement} {line : Option Line} :
    placeStatement g limit layout s = .ok (line, next) ↔ Effect g limit layout s line next := by
  constructor
  · intro h
    -- Statements with content go through `placeStatement_of_content`, the directives are direct.
    cases hc : content g s with
    | ok c =>
      rw [placeStatement_of_content hc, map_eq_ok_iff] at h
      obtain ⟨⟨line', next'⟩, hp, he⟩ := h
      obtain ⟨hb, rfl, rfl⟩ := placeContent_eq_ok_iff.mp hp
      obtain ⟨rfl, rfl⟩ := Prod.mk.inj he
      exact .puts hc hb
    | error fault =>
      unfold placeStatement at h
      split at h
      · cases h
      · next ho =>
        obtain ⟨⟨line', next'⟩, hp, he⟩ := map_eq_ok_iff.mp h
        obtain ⟨rfl, rfl⟩ := Prod.mk.inj he
        obtain ⟨name, operand, address, hl, hop, hz, hs, ha, rfl, rfl⟩ := placeStart_eq_ok hp
        exact .opens ho hl hop hz hs ha
      · next ho =>
        obtain ⟨next', hp, he⟩ := map_eq_ok_iff.mp h
        obtain ⟨rfl, rfl⟩ := Prod.mk.inj he
        obtain ⟨hs, entry, hen, rfl⟩ := placeEnd_eq_ok_iff.mp hp
        exact .closes ho hs hen
      · next kind ho =>
        simp only [content, ho] at hc
        rw [hc] at h
        cases h
      · next d ho =>
        simp only [content, ho] at hc
        rw [hc] at h
        cases h
  · intro h
    cases h with
    | opens ho hl hop hz hs ha =>
      simp [placeStatement, ho, placeStart, hl, hop, Operands.single, hz, hs, ha, Except.map]
    | closes ho hs hen =>
      have hp := placeEnd_eq_ok_iff.mpr ⟨hs, _, hen, rfl⟩
      simp [placeStatement, ho, hp, Except.map]
    | puts hc hb =>
      rw [placeStatement_of_content hc, placeContent_eq_ok_iff.mpr ⟨hb, rfl, rfl⟩]
      rfl

/-- A token line is placed when it has a statement whose label is new and which has an effect. -/
theorem placeLine_eq_ok_iff {layout next : Layout} {known defined : SymbolTable}
    {tokens : List String} {line : Option Line} :
    placeLine g limit layout known tokens = (.ok (line, next), defined) ↔
      ∃ s, g.statement? tokens = some s ∧ defineLabel layout known s.label = .ok defined ∧
        Effect g limit layout s line next := by
  unfold placeLine Grammar.parse
  cases hs : g.statement? tokens with
  | none => simp
  | some s =>
    cases hd : defineLabel layout known s.label with
    | error fault => simp [hd]
    | ok table =>
      simp only [hd, Prod.mk.injEq, placeStatement_eq_ok_iff, Option.some.injEq]
      constructor
      · rintro ⟨he, rfl⟩
        exact ⟨s, rfl, hd, he⟩
      · rintro ⟨s', rfl, hd', he⟩
        rw [hd] at hd'
        exact ⟨he, Except.ok.inj hd'⟩

/-! ### What a run does -/

open Program (extent linesFrom slotsFrom symbolsOf symbol? symbolsOf_cons
  symbolsOf_singleton)

/-- The layout while the body of a program is placed. -/
def opened (address start : Nat) : Layout :=
  { locationCounter := address, startAddress := start, startSeen := true }

/-- The layout when the body of a program has been placed. -/
def closed (address start : Nat) (entry : Option Nat) : Layout :=
  (opened address start).closeAt (entry.getD start)

private theorem placeFrom_cons_eq_ok_iff {layout : Layout} {known final : SymbolTable}
    {tokens : List String} {rest : List (List String)} {placed : Placed}
    (hend : layout.endSeen = false) :
    placeFrom g limit layout known (tokens :: rest) = (.ok placed, final) ↔
      standingFault? limit layout = none ∧ ∃ line next defined tail,
        placeLine g limit layout known tokens = (.ok (line, next), defined) ∧
        placeFrom g limit next defined rest = (.ok tail, final) ∧
        placed = { tail with lines := line.toList ++ tail.lines } := by
  rw [placeFrom]
  cases hf : standingFault? limit layout with
  | some fault => simp
  | none =>
    simp only [hend, Bool.false_eq_true, ↓reduceIte, true_and]
    rcases hp : placeLine g limit layout known tokens with ⟨result, defined⟩
    cases result with
    | error fault => simp
    | ok pair =>
      obtain ⟨line, next⟩ := pair
      simp only [Prod.mk.injEq, Except.ok.injEq]
      constructor
      · intro h
        rcases ht : placeFrom g limit next defined rest with ⟨result, table⟩
        rw [ht] at h
        cases result with
        | error e => cases h
        | ok tail =>
          obtain ⟨hp, rfl⟩ := Prod.mk.inj h
          obtain rfl := Except.ok.inj hp
          exact ⟨line, next, defined, tail, ⟨⟨rfl, rfl⟩, rfl⟩, ht, rfl⟩
      · rintro ⟨line', next', defined', tail, ⟨⟨rfl, rfl⟩, rfl⟩, ht, rfl⟩
        rw [ht]

/-- Nothing is wrong with an opened program whose location counter is within the limit. -/
theorem standingFault?_eq_none_iff {layout : Layout} (h : layout.startSeen = true) :
    standingFault? limit layout = none ↔ layout.locationCounter ≤ limit := by
  rw [standingFault?, if_pos h]
  split
  · next hb => simpa using hb
  · next hb => simpa using hb

/-- After the end directive no line is looked at, if nothing is wrong by then. -/
theorem placeFrom_of_endSeen {layout : Layout} (he : layout.endSeen = true)
    (hf : standingFault? limit layout = none) (known : SymbolTable)
    (source : List (List String)) :
    placeFrom g limit layout known source = (.ok { lines := [], layout }, known) := by
  cases source with
  | nil => simp [placeFrom, he]
  | cons tokens rest => simp [placeFrom, hf, he]

private theorem placeFrom_closed {address start : Nat} {entry : Option Nat}
    (known : SymbolTable) (rest : List (List String)) (hb : address ≤ limit) :
    placeFrom g limit (closed address start entry) known rest =
      (.ok { lines := [], layout := closed address start entry }, known) :=
  placeFrom_of_endSeen rfl ((standingFault?_eq_none_iff rfl).mpr hb) known rest

private theorem defineLabel_opened_iff {address start : Nat} {known defined : SymbolTable}
    {label : Option String} :
    defineLabel (opened address start) known label = .ok defined ↔
      known.Fresh (symbol? (label, address)).toList ∧
        defined = known.append (symbol? (label, address)).toList := by
  cases label with
  | none => simp [defineLabel, symbol?, SymbolTable.Fresh, eq_comm]
  | some name =>
    simp only [defineLabel, symbol?, opened, Option.map_some, Option.toList_some,
      SymbolTable.Fresh, and_true, ↓reduceIte]
    split
    · next hc => simp [hc]
    · next hc =>
      simp only [Except.ok.injEq, hc, true_and]
      exact eq_comm

/-- The body of a program is placed exactly when it reads as items and an end that fit, with new
labels. -/
theorem placeFrom_opened_eq_ok_iff {address start : Nat} {known final : SymbolTable}
    {source : List (List String)} {placed : Placed} :
    placeFrom g limit (opened address start) known source = (.ok placed, final) ↔
      ∃ items last entry, g.Body limit source items last entry ∧
        address + extent items ≤ limit ∧
        known.Fresh (symbolsOf (slotsFrom address last items)) ∧
        placed = ⟨linesFrom address items, closed (address + extent items) start entry⟩ ∧
        final = known.append (symbolsOf (slotsFrom address last items)) := by
  constructor
  · intro h
    induction source generalizing address known placed final with
    | nil => simp [placeFrom, opened] at h
    | cons tokens rest ih =>
      obtain ⟨hf, line, next, defined, tail, hp, hr, rfl⟩ :=
        (placeFrom_cons_eq_ok_iff rfl).mp h
      obtain ⟨s, hs, hd, he⟩ := placeLine_eq_ok_iff.mp hp
      obtain ⟨hfresh, rfl⟩ := defineLabel_opened_iff.mp hd
      cases he with
      | opens _ _ _ _ hseen _ => cases hseen
      | @closes entry ho _ hen =>
        have hb : address ≤ limit := (standingFault?_eq_none_iff rfl).mp hf
        have hc : (opened address start).closeAt (entry.getD start) = closed address start entry :=
          rfl
        rw [show (opened address start).startAddress = start from rfl, hc,
          placeFrom_closed _ _ hb] at hr
        obtain ⟨ht, rfl⟩ := Prod.mk.inj hr
        obtain rfl := Except.ok.inj ht
        refine ⟨[], s.label, entry, .close ⟨s, hs, ho, rfl, hen⟩, by simpa [extent] using hb, ?_⟩
        rw [slotsFrom, symbolsOf_singleton]
        exact ⟨hfresh, by simp [linesFrom, extent], rfl⟩
      | @puts c hc hb =>
        have hnext : ({ opened address start with
            locationCounter := (opened address start).locationCounter + c.size } : Layout) =
              opened (address + c.size) start := rfl
        rw [hnext] at hr
        obtain ⟨items, last, entry, hbody, hfit, hfr, rfl, rfl⟩ := ih hr
        refine ⟨⟨s.label, c⟩ :: items, last, entry, .item ⟨s, hs, rfl, hc⟩ hbody, ?_, ?_, ?_, ?_⟩
        · simpa [extent, Nat.add_assoc] using hfit
        · rw [slotsFrom, symbolsOf_cons]
          exact SymbolTable.fresh_append_iff.mpr ⟨hfresh, hfr⟩
        · simp [linesFrom, extent, Nat.add_assoc, opened]
        · rw [slotsFrom, symbolsOf_cons, SymbolTable.append_append]
  · rintro ⟨items, last, entry, hbody, hfit, hfresh, rfl, rfl⟩
    induction hbody generalizing address known with
    | @close tokens rest label entry hend =>
      obtain ⟨s, hs, ho, rfl, hen⟩ := hend
      have hb : address ≤ limit := by simpa [extent] using hfit
      rw [slotsFrom, symbolsOf_singleton] at hfresh ⊢
      apply (placeFrom_cons_eq_ok_iff rfl).mpr
      refine ⟨(standingFault?_eq_none_iff rfl).mpr hb, none, closed address start entry, _, _,
        placeLine_eq_ok_iff.mpr ⟨s, hs, defineLabel_opened_iff.mpr ⟨hfresh, rfl⟩,
          .closes ho rfl hen⟩, placeFrom_closed _ _ hb, by simp [linesFrom, extent]⟩
    | @item tokens rest item items label entry hitem _ ih =>
      obtain ⟨s, hs, hl, hc⟩ := hitem
      rw [slotsFrom, symbolsOf_cons, ← hl] at hfresh ⊢
      obtain ⟨hnew, hrest⟩ := SymbolTable.fresh_append_iff.mp hfresh
      have hsum : address + extent (item :: items) =
          address + item.content.size + extent items := by
        simp [extent, Nat.add_assoc]
      rw [hsum] at hfit ⊢
      have tail := ih hfit hrest
      rw [SymbolTable.append_append] at tail
      apply (placeFrom_cons_eq_ok_iff rfl).mpr
      have hb : address ≤ limit := by omega
      refine ⟨(standingFault?_eq_none_iff rfl).mpr hb, some (.body address item.content), _, _, _,
        placeLine_eq_ok_iff.mpr ⟨s, hs, defineLabel_opened_iff.mpr ⟨hnew, rfl⟩,
          .puts hc (Nat.le_trans (Nat.le_add_right _ _) hfit)⟩, tail, by simp [linesFrom]⟩

/-- A source is placed exactly when it reads as a program that fits and whose labels are new. -/
theorem run_eq_ok_iff {options : Options} {table : OpTable} {known final : SymbolTable}
    {source : List (List String)} {placed : Placed} :
    run options table known source = (.ok placed, final) ↔
      ∃ p : Program, (grammar options table).Reads options.limit source p ∧
        p.finish ≤ options.limit ∧ known.contains p.name = false ∧
        known.Fresh p.symbols ∧ placed = ⟨p.listing, p.layout⟩ ∧ final = known.append p.symbols := by
  have hfault : standingFault? options.limit .initial = none := by
    simp [standingFault?, Layout.initial]
  constructor
  · intro h
    cases source with
    | nil => simp [run, placeFrom, Layout.initial] at h
    | cons first rest =>
      obtain ⟨-, line, next, defined, tail, hp, hr, rfl⟩ := (placeFrom_cons_eq_ok_iff rfl).mp h
      obtain ⟨s, hs, hd, he⟩ := placeLine_eq_ok_iff.mp hp
      cases he with
      | @opens name operand address ho hl hop _ _ ha =>
        have hnew : known.contains name = false ∧ defined = known := by
          simp only [defineLabel, hl, Layout.initial] at hd
          split at hd
          · cases hd
          · next hc => exact ⟨by simpa using hc, (Except.ok.inj hd).symm⟩
        obtain ⟨hnew, rfl⟩ := hnew
        have hopen : Layout.initial.openAt address = opened address address := rfl
        rw [hopen] at hr
        obtain ⟨items, last, entry, hbody, hfit, hfresh, rfl, rfl⟩ :=
          placeFrom_opened_eq_ok_iff.mp hr
        exact ⟨⟨name, address, items, last, entry⟩,
          ⟨first, rest, rfl, ⟨s, operand, hs, ho, hl, hop, ha⟩, hbody⟩, hfit, hnew, hfresh, rfl,
          rfl⟩
      | closes _ hseen _ => cases hseen
      | @puts c hc _ =>
        -- Content before the start directive moves the location counter, which stops the run.
        have hpos := (content_wellFormed hc).size_pos
        cases rest with
        | nil => simp [placeFrom, Layout.initial] at hr
        | cons second others =>
          have hstop : standingFault? options.limit
              { Layout.initial with
                locationCounter := Layout.initial.locationCounter + c.size } =
                some .missingStart := by
            have : c.size ≠ 0 := by omega
            simp [standingFault?, Layout.initial, this]
          rw [placeFrom, hstop] at hr
          cases hr
  · rintro ⟨p, ⟨first, rest, rfl, ⟨s, operand, hs, ho, hl, hop, ha⟩, hbody⟩, hfit, hnew, hfresh,
      rfl, rfl⟩
    have hdefine : defineLabel .initial known s.label = .ok known := by
      simp [defineLabel, hl, hnew, Layout.initial]
    have tail : placeFrom (grammar options table) options.limit (opened p.start p.start) known
        rest = (.ok ⟨linesFrom p.start p.items, p.layout⟩, known.append p.symbols) :=
      placeFrom_opened_eq_ok_iff.mpr
        ⟨p.items, p.endLabel, p.entry, hbody, hfit, hfresh, rfl, rfl⟩
    apply (placeFrom_cons_eq_ok_iff rfl).mpr
    exact ⟨hfault, some (.start p.name p.start), opened p.start p.start, known, _,
      placeLine_eq_ok_iff.mpr ⟨s, hs, hdefine, .opens ho hl hop rfl rfl ha⟩, tail, rfl⟩

end Placement

namespace Program

/-! ### A sample program -/

/-- A source with a literal, registers and a reference to the label of its last line. -/
def sampleText : String :=
  "prog start 256\nmsg BYTE C\"a \tb\rc\"\nhere jmp Last\nadd R1 R16\nlast END"

/-- The program of the sample text. -/
def sample : Program where
  name := "PROG"
  start := 256
  items :=
    [⟨some "MSG", .literal "C\"a \tb\rc\""⟩, ⟨some "HERE", .instruction 5 (.symbol "Last")⟩,
      ⟨none, .instruction 16 (.registers "R1" "R16")⟩]
  endLabel := some "LAST"
  entry := none

private theorem ofText_sampleText : Token.ofText sampleText =
    [["prog", "start", "256"], ["msg", "BYTE", "C\"a \tb\rc\""], ["here", "jmp", "Last"],
      ["add", "R1", "R16"], ["last", "END"]] := by
  cbv

private theorem statement?_sample (g : Grammar) (hg : g = Placement.grammar {} .standard) :
    g.statement? ["prog", "start", "256"] = some ⟨some "PROG", "START", .one "256"⟩ ∧
      g.statement? ["msg", "BYTE", "C\"a \tb\rc\""] =
        some ⟨some "MSG", "BYTE", .one "C\"a \tb\rc\""⟩ ∧
      g.statement? ["here", "jmp", "Last"] = some ⟨some "HERE", "JMP", .one "Last"⟩ ∧
      g.statement? ["add", "R1", "R16"] = some ⟨none, "ADD", .two "R1" "R16"⟩ ∧
      g.statement? ["last", "END"] = some ⟨some "LAST", "END", .none⟩ := by
  subst hg
  simp [Placement.grammar, Grammar.statement?, Grammar.isLabel, Grammar.isMnemonic,
      Grammar.isInstruction, Grammar.standsAlone, OpTable.contains, OpTable.find?,
      OpTable.standard, Text.sameName_iff, ← String.toList_inj, Directive.isName,
      Directive.ofToken?, Directive.all, Directive.name, Storage.name, Text.upper, Text.isAscii,
      Register.isName, Register.number?, Statement.ofWritten]

private theorem operation?_sample (g : Grammar) (hg : g = Placement.grammar {} .standard) :
    g.operation? "START" = some (.directive .start) ∧
      g.operation? "BYTE" = some (.directive (.storage .byte)) ∧
      g.operation? "JMP" = some (.instruction ⟨"JMP", 1, .four⟩) ∧
      g.operation? "ADD" = some (.instruction ⟨"ADD", 4, .two⟩) ∧
      g.operation? "END" = some (.directive .finish) := by
  subst hg
  simp [Placement.grammar, Grammar.operation?, Directive.ofToken?, Directive.all,
      Directive.name, Storage.name, Text.upper, Text.isAscii, ← String.toList_inj, OpTable.find?,
      OpTable.standard, Text.sameName_iff]

/-- The sample text reads as the sample program under the standard table and limits. -/
theorem sample_reads :
    (Placement.grammar {} .standard).Reads maxField (Token.ofText sampleText) sample := by
  obtain ⟨s1, s2, s3, s4, s5⟩ := statement?_sample _ rfl
  obtain ⟨o1, o2, o3, o4, o5⟩ := operation?_sample _ rfl
  rw [ofText_sampleText]
  refine ⟨_, _, rfl, ⟨_, _, s1, o1, rfl, rfl, by cbv⟩, .item ⟨_, s2, rfl, ?_⟩
    (.item ⟨_, s3, rfl, ?_⟩ (.item ⟨_, s4, rfl, ?_⟩ (.close ⟨_, s5, o5, rfl, rfl⟩)))⟩
  · simp only [Placement.content, o2]
    cbv
  · simp only [Placement.content, o3]
    cbv
  · simp only [Placement.content, o4]
    cbv

/-- The symbols of the sample program. -/
theorem sample_symbols : sample.symbols = [⟨"MSG", 256⟩, ⟨"HERE", 262⟩, ⟨"LAST", 268⟩] := by
  cbv

/-- The labels of the sample program are new to the empty table. -/
theorem sample_fresh : SymbolTable.empty.Fresh sample.symbols := by
  rw [sample_symbols]
  simp [SymbolTable.Fresh, SymbolTable.contains, SymbolTable.find?, SymbolTable.empty,
    ← String.toList_inj]

/-- The sample text is placed as the sample program. -/
theorem sample_run :
    Placement.run {} .standard .empty (Token.ofText sampleText) =
      (.ok ⟨sample.listing, sample.layout⟩, SymbolTable.empty.append sample.symbols) := by
  apply Placement.run_eq_ok_iff.mpr
  exact ⟨sample, sample_reads, by cbv, rfl, sample_fresh, rfl, rfl⟩

end Program

end SicXe
