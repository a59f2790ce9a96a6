import SicXe.Proofs.Acceptance
import SicXe.Proofs.FailFast

/-!
# Histories of a session

Any operations may follow one another on a session, and any of them may fail. What an operation can
do is said once: it keeps the session, sets its table, forgets its symbols or places a program.
From this follow an invariant of all sessions that operations lead to, that a failed operation can
be left out of every history, and that an assembly depends on nothing in a history but the table
that it leads to, when every program starts without symbols.
-/

namespace SicXe

/-! ### Symbols of programs -/

namespace Program

variable {address : Nat} {last : Option String} {items : List Item}

/-- Label slots stand between the first address and the address after the last item. -/
theorem address_of_mem_slotsFrom {slot : Option String × Nat}
    (h : slot ∈ slotsFrom address last items) :
    address ≤ slot.2 ∧ slot.2 ≤ address + extent items := by
  induction items generalizing address with
  | nil =>
    rw [slotsFrom, List.mem_singleton] at h
    simp [h, extent]
  | cons item rest ih =>
    rw [slotsFrom, List.mem_cons] at h
    rw [extent_cons]
    rcases h with rfl | h
    · exact ⟨Nat.le_refl _, Nat.le_add_right _ _⟩
    · have hrest := ih h
      omega

/-- Label slots rise when every item takes up memory. -/
theorem slotsFrom_rise (h : ∀ item ∈ items, 1 ≤ item.content.size) :
    (slotsFrom address last items).Pairwise fun a b ↦ a.2 < b.2 := by
  induction items generalizing address with
  | nil => exact List.pairwise_singleton _ _
  | cons item rest ih =>
    rw [slotsFrom, List.pairwise_cons]
    refine ⟨?_, ih fun other ho ↦ h other (List.mem_cons_of_mem item ho)⟩
    intro slot hs
    have hslot := address_of_mem_slotsFrom hs
    have hitem := h item List.mem_cons_self
    change address < slot.2
    omega

variable {g : Grammar} {limit : Nat} {source : List (List String)} {p : Program} {entry : Symbol}

/-- The symbols of a program stand between its start and the address after its last item. -/
theorem address_of_mem_symbols (h : entry ∈ p.symbols) :
    p.start ≤ entry.address ∧ entry.address ≤ p.finish := by
  obtain ⟨n, hn⟩ := exists_slot_of_mem_symbols h
  exact address_of_mem_slotsFrom (List.mem_of_getElem? hn)

/-- The symbols of a program rise. -/
theorem symbols_rise (h : g.Reads limit source p) :
    p.symbols.Pairwise fun a b ↦ a.address < b.address := by
  have hitems : ∀ item ∈ p.items, 1 ≤ item.content.size :=
    fun item hm ↦ (wellFormed_of_mem_items h item hm).size_pos
  apply (slotsFrom_rise hitems).filterMap
  intro a b hlt x hx y hy
  obtain ⟨_, -, rfl⟩ := Option.map_eq_some_iff.mp hx
  obtain ⟨_, -, rfl⟩ := Option.map_eq_some_iff.mp hy
  exact hlt

end Program

namespace Grammar

variable {g : Grammar} {limit : Nat} {source : List (List String)} {p : Program}

/-- A label has no more bytes than the grammar allows. -/
theorem byteLength_of_isLabel {token : String} (h : g.isLabel token = true) :
    Text.byteLength token ≤ g.maxLabelLength := by
  rw [Text.byteLength_of_ascii (isIdentifier_of_isLabel h).isAscii]
  unfold isLabel at h
  split at h
  · cases h
  · next c cs he =>
    simp only [Bool.and_eq_true, decide_eq_true_eq] at h
    rw [he]
    exact h.1.1.1.2

/-- The symbols of a program are named by labels in upper case. -/
theorem Reads.exists_label_of_mem_symbols (h : g.Reads limit source p) {entry : Symbol}
    (hm : entry ∈ p.symbols) :
    ∃ token, g.isLabel token = true ∧ entry.name = Text.uppercase token := by
  have hname : entry.name ∈ g.labelsUpTo source p.listing.length := by
    rw [h.labelsUpTo_eq]
    exact List.mem_map_of_mem hm
  obtain ⟨tokens, -, hlabel⟩ := List.mem_filterMap.mp hname
  obtain ⟨s, hs, hl⟩ := Option.bind_eq_some_iff.mp hlabel
  obtain ⟨token, rest, -, ht, he⟩ := exists_isLabel hs hl
  exact ⟨token, ht, he⟩

end Grammar

/-! ### Well-formed symbols and layouts -/

/-- Symbols that programs define under given limits. -/
structure SymbolTable.WellFormed (options : Options) (table : SymbolTable) : Prop where
  /-- Names differ in more than the case of letters. -/
  names_differ : table.entries.Pairwise fun a b ↦ Text.sameName a.name b.name = false
  /-- Every name is an identifier in upper case that is not too long. -/
  names : ∀ entry ∈ table.entries, IsIdentifier entry.name ∧
    Text.uppercase entry.name = entry.name ∧ Text.byteLength entry.name ≤ options.maxLabelLength
  /-- Every address is above zero and within the limit. -/
  addresses : ∀ entry ∈ table.entries, 1 ≤ entry.address ∧ entry.address ≤ options.limit

/-- A layout before any program or after a whole program within the limit. -/
def Layout.IsSettled (limit : Nat) (layout : Layout) : Prop :=
  layout = .initial ∨
    layout.startSeen = true ∧ layout.endSeen = true ∧ 1 ≤ layout.startAddress ∧
      layout.startAddress ≤ layout.locationCounter ∧ layout.locationCounter ≤ limit ∧
      layout.entryAddress ≤ limit

namespace Program

variable {options : Options} {table : OpTable} {source : List (List String)} {p : Program}
  {known : SymbolTable}

/-- The entry address of a program lies within the limit. -/
theorem entry_le {g : Grammar} {limit address : Nat} (h : g.Reads limit source p)
    (he : p.entry = some address) : address ≤ limit := by
  obtain ⟨first, rest, -, -, hbody⟩ := h
  obtain ⟨-, tokens, -, s, -, -, -, hentry⟩ := Grammar.body_iff.mp hbody
  rw [he] at hentry
  cases ho : s.operands with
  | none =>
    rw [ho] at hentry
    cases hentry
  | one operand =>
    rw [ho] at hentry
    obtain ⟨value, hv, hs⟩ := hentry
    obtain rfl := Option.some.inj hs
    exact (Placement.entryAddress_eq_ok_iff.mp hv).2.2
  | two a b =>
    rw [ho] at hentry
    cases hentry

/-- The layout of a program that fits is settled. -/
theorem isSettled_layout {g : Grammar} {limit : Nat} (h : g.Reads limit source p)
    (hfit : p.finish ≤ limit) : p.layout.IsSettled limit := by
  obtain ⟨hpos, hstart⟩ := start_bounds h
  refine Or.inr ⟨rfl, rfl, hpos, Nat.le_add_right _ _, hfit, ?_⟩
  change p.entry.getD p.start ≤ limit
  cases he : p.entry with
  | none => exact hstart
  | some address => exact entry_le h he

/-- New symbols of a program that fits keep a table well formed. -/
theorem wellFormed_append
    (h : (Placement.grammar options table).Reads options.limit source p)
    (hfit : p.finish ≤ options.limit) (hfresh : known.Fresh p.symbols)
    (hknown : known.WellFormed options) : (known.append p.symbols).WellFormed options := by
  obtain ⟨hnew, hdiffer⟩ := SymbolTable.fresh_iff.mp hfresh
  have hpos := (start_bounds h).1
  constructor
  · apply List.pairwise_append.mpr
    refine ⟨hknown.names_differ, hdiffer, ?_⟩
    intro a ha b hb
    exact SymbolTable.contains_eq_false_iff.mp (hnew b hb) a ha
  · intro entry hm
    rcases List.mem_append.mp hm with hm | hm
    · exact hknown.names entry hm
    · obtain ⟨token, hl, he⟩ := h.exists_label_of_mem_symbols hm
      have hid := Grammar.isIdentifier_of_isLabel hl
      have hlength : Text.byteLength (Text.uppercase token) = Text.byteLength token := by
        rw [Text.byteLength_of_ascii hid.isAscii, Text.byteLength_of_ascii hid.uppercase.isAscii,
          Text.toList_uppercase_of_ascii hid.isAscii, List.length_map]
      rw [he, hlength]
      exact ⟨hid.uppercase, Text.uppercase_uppercase hid.isAscii, Grammar.byteLength_of_isLabel hl⟩
  · intro entry hm
    rcases List.mem_append.mp hm with hm | hm
    · exact hknown.addresses entry hm
    · have hbounds := address_of_mem_symbols hm
      omega

end Program

namespace Session

/-! ### Operations -/

/-- An operation on a session. -/
inductive Action where
  | setTable (rows : List Row)
  | setTableText (text : String)
  | resetTable
  | place (source : List (List String))
  | encode (listing : List (List String))
  | resetSymbols
  | assemble (text : String)
  deriving DecidableEq, Repr

/-- What an operation answers when it succeeds. -/
inductive Answer where
  | done
  | listing (lines : List Listing.Line)
  | records (records : List Record)
  | assembly (assembly : Assembly)
  deriving DecidableEq, Repr

/-- The token lines that an operation tries to place. -/
def Action.source? : Action → Option (List (List String))
  | place source => some source
  | assemble text => some (Token.ofText text)
  | _ => none

/-- The answer to an operation and the session after it. -/
def perform (session : Session) : Action → Except Error Answer × Session
  | .setTable rows => ((session.setTable rows).1.map fun _ ↦ .done, (session.setTable rows).2)
  | .setTableText text =>
    ((session.setTableText text).1.map fun _ ↦ .done, (session.setTableText text).2)
  | .resetTable => (.ok .done, session.resetTable)
  | .place source => ((session.place source).1.map .listing, (session.place source).2)
  | .encode listing => ((session.encode listing).map .records, session)
  | .resetSymbols => (.ok .done, session.resetSymbols)
  | .assemble text => ((session.assemble text).1.map .assembly, (session.assemble text).2)

/-- The session after operations, one after another. -/
def after (session : Session) (actions : List Action) : Session :=
  actions.foldl (fun current action ↦ (current.perform action).2) session

/-- The token lines that an operation places, with the table in use, if it succeeds in that. -/
def placedBy? (session : Session) (action : Action) : Option (OpTable × List (List String)) :=
  action.source?.bind fun source ↦
    if (session.place source).1.isOk then some (session.table, source) else none

/-- The token lines that were placed last in a history, with the table in use at that time. -/
def lastPlaced? (session : Session) : List Action → Option (OpTable × List (List String))
  | [] => none
  | action :: rest =>
    ((session.perform action).2.lastPlaced? rest).or (session.placedBy? action)

variable (session : Session)

/-- A history can be split at any place. -/
theorem after_append (first second : List Action) :
    session.after (first ++ second) = (session.after first).after second :=
  List.foldl_append

/-- An operation more leads from the session before it to the session after it. -/
theorem after_concat (actions : List Action) (action : Action) :
    session.after (actions ++ [action]) = ((session.after actions).perform action).2 :=
  session.after_append actions [action]

/-- What was placed last is what the last operation placed, if it did, or what was placed last
before it. -/
theorem lastPlaced?_concat (actions : List Action) (action : Action) :
    session.lastPlaced? (actions ++ [action]) =
      ((session.after actions).placedBy? action).or (session.lastPlaced? actions) := by
  induction actions generalizing session with
  | nil =>
    rw [List.nil_append, lastPlaced?, lastPlaced?, lastPlaced?, Option.none_or, Option.or_none]
    rfl
  | cons first rest ih =>
    rw [List.cons_append, lastPlaced?, ih, lastPlaced?, Option.or_assoc]
    rfl

/-! ### What an operation leaves -/

/-- Rows that form no table leave the session as it was. -/
theorem setTable_snd_of_error {rows : List Row} {e : Error}
    (h : (session.setTable rows).1 = .error e) : (session.setTable rows).2 = session := by
  unfold setTable at h ⊢
  split
  · rfl
  · next hr =>
    rw [hr] at h
    cases h

/-- A text whose rows form no table leaves the session as it was. -/
theorem setTableText_snd_of_error {text : String} {e : Error}
    (h : (session.setTableText text).1 = .error e) : (session.setTableText text).2 = session := by
  unfold setTableText at h ⊢
  split
  · rfl
  · next hr =>
    rw [hr] at h
    exact session.setTable_snd_of_error h

/-- A program that is not placed leaves the session as it was. -/
theorem place_snd_of_error {source : List (List String)} {e : Error}
    (h : (session.place source).1 = .error e) : (session.place source).2 = session := by
  unfold place at h ⊢
  split
  · rfl
  · next hr =>
    rw [hr] at h
    cases h

/-- Assembling a text changes a session as placing it does. -/
theorem assemble_snd (text : String) :
    (session.assemble text).2 = (session.place (Token.ofText text)).2 := by
  unfold assemble
  rcases session.place (Token.ofText text) with ⟨_ | lines, next⟩
  · rfl
  · dsimp only
    split <;> rfl

/-- A source that is not placed is not assembled either. -/
theorem assemble_of_place_error {text : String} {e : Error}
    (h : (session.place (Token.ofText text)).1 = .error e) :
    session.assemble text = (.error e, session) := by
  have hplace : session.place (Token.ofText text) = (.error e, session) :=
    Prod.ext h (session.place_snd_of_error h)
  rw [assemble, hplace]

/-- Rows change only the table. -/
theorem setTable_snd (rows : List Row) :
    (session.setTable rows).2 = { session with table := (session.setTable rows).2.table } := by
  unfold setTable
  split <;> rfl

/-- A text changes only the table. -/
theorem setTableText_snd (text : String) :
    (session.setTableText text).2 =
      { session with table := (session.setTableText text).2.table } := by
  unfold setTableText
  split
  · rfl
  · exact session.setTable_snd _

/-- Placing a program changes only the symbols and the layout. -/
theorem place_snd (source : List (List String)) :
    (session.place source).2 = { session with
      symbols := (session.place source).2.symbols
      layout := (session.place source).2.layout } := by
  unfold place
  split <;> rfl

/-- The operations of a history without those that fail and place no program. -/
def effective (session : Session) : List Action → List Action
  | [] => []
  | action :: rest =>
    match (session.perform action).1, session.placedBy? action with
    | .error _, none => session.effective rest
    | _, _ => action :: (session.perform action).2.effective rest

private theorem place_snd_of_placedBy? {action : Action} {source : List (List String)}
    (hs : action.source? = some source) (h : session.placedBy? action = none) :
    (session.place source).2 = session := by
  rw [placedBy?, hs, Option.bind_some] at h
  cases hp : (session.place source).1 with
  | error e => exact session.place_snd_of_error hp
  | ok lines =>
    rw [hp] at h
    cases h

private theorem eq_error_of_map {α β : Type} {f : α → β} {x : Except Error α} {e : Error}
    (h : x.map f = .error e) : x = .error e := by
  cases x with
  | error _ => exact congrArg Except.error (Except.error.inj h)
  | ok _ => cases h

/-- An operation that fails and places no program leaves the session as it was. -/
theorem perform_snd_of_error {action : Action} {e : Error}
    (h : (session.perform action).1 = .error e) (hnone : session.placedBy? action = none) :
    (session.perform action).2 = session := by
  cases action with
  | setTable rows => exact session.setTable_snd_of_error (eq_error_of_map h)
  | setTableText text => exact session.setTableText_snd_of_error (eq_error_of_map h)
  | resetTable => cases h
  | place source => exact session.place_snd_of_placedBy? rfl hnone
  | encode listing => rfl
  | resetSymbols => cases h
  | assemble text =>
    simp only [perform, assemble_snd]
    exact session.place_snd_of_placedBy? rfl hnone

/-- Operations that fail and place no program can be left out of a history. -/
theorem after_effective (actions : List Action) :
    session.after (session.effective actions) = session.after actions := by
  induction actions generalizing session with
  | nil => rfl
  | cons action rest ih =>
    have hcons : session.after (action :: rest) = (session.perform action).2.after rest := rfl
    rw [effective, hcons]
    split
    · next he hnone =>
      rw [ih, session.perform_snd_of_error he hnone]
    · exact ih (session.perform action).2

/-- An operation that fails leaves the session as it was, apart from assembling a text that is
placed and then not encoded, which leaves what placing it leaves. Encoding changes nothing; the
table is changed only by the operations that set it, and these change nothing else; resetting the
symbols changes only them. So failed operations can be left out of every history. -/
theorem operations_frame :
    (∀ rows e, (session.setTable rows).1 = .error e → (session.setTable rows).2 = session) ∧
      (∀ text e, (session.setTableText text).1 = .error e →
        (session.setTableText text).2 = session) ∧
      (∀ source e, (session.place source).1 = .error e → (session.place source).2 = session) ∧
      (∀ text e, (session.place (Token.ofText text)).1 = .error e →
        session.assemble text = (.error e, session)) ∧
      (∀ text lines e, (session.place (Token.ofText text)).1 = .ok lines →
        (session.assemble text).1 = .error e →
        (session.assemble text).2 = (session.place (Token.ofText text)).2) ∧
      (∀ listing, (session.perform (.encode listing)).2 = session) ∧
      (∀ rows, (session.setTable rows).2 =
        { session with table := (session.setTable rows).2.table }) ∧
      (∀ text, (session.setTableText text).2 =
        { session with table := (session.setTableText text).2.table }) ∧
      session.resetTable = { session with table := session.resetTable.table } ∧
      (∀ source, (session.place source).2 = { session with
        symbols := (session.place source).2.symbols
        layout := (session.place source).2.layout }) ∧
      (∀ text, (session.assemble text).2 = { session with
        symbols := (session.assemble text).2.symbols
        layout := (session.assemble text).2.layout }) ∧
      session.resetSymbols = { session with symbols := session.resetSymbols.symbols } ∧
      ∀ actions, session.after (session.effective actions) = session.after actions := by
  refine ⟨fun rows e h ↦ session.setTable_snd_of_error h,
    fun text e h ↦ session.setTableText_snd_of_error h,
    fun source e h ↦ session.place_snd_of_error h,
    fun text e h ↦ session.assemble_of_place_error h,
    fun text lines e _ _ ↦ session.assemble_snd text, fun listing ↦ rfl, session.setTable_snd,
    session.setTableText_snd, rfl, session.place_snd, fun text ↦ ?_, rfl, session.after_effective⟩
  rw [session.assemble_snd]
  exact session.place_snd _

/-- The refused source has a label defined by its third line, and the session does not get it. -/
theorem operations_frame_sample :
    ∃ e,
      Placement.run {} .standard .empty Placement.refusedSource = (.error e, ⟨[⟨"A", 16⟩]⟩) ∧
      ((start {}).place Placement.refusedSource).1 = .error e ∧
      ((start {}).place Placement.refusedSource).2 = start {} := by
  refine ⟨⟨.operand (.outOfRange 1 maxField), "WORD 0"⟩, by decide +kernel, by decide +kernel, ?_⟩
  exact (operations_frame (start {})).2.2.1 _ ⟨.operand (.outOfRange 1 maxField), "WORD 0"⟩
    (by decide +kernel)

/-! ### What an operation can do -/

/-- The effect of an operation: it keeps the session, sets its table, forgets its symbols or places
a program. -/
inductive Effect (session : Session) (action : Action) : Session → Prop
  | keeps : session.placedBy? action = none → Effect session action session
  | setsTable {table : OpTable} :
      session.placedBy? action = none → table.Accepted → Effect session action { session with table }
  | forgets :
      session.placedBy? action = none → Effect session action { session with symbols := .empty }
  | places {source : List (List String)} {p : Program} :
      session.placedBy? action = some (session.table, source) →
      (Placement.grammar session.options session.table).Reads session.options.limit source p →
      p.finish ≤ session.options.limit → session.knownSymbols.Fresh p.symbols →
      Effect session action { session with
        symbols := session.knownSymbols.append p.symbols
        layout := p.layout }

private theorem effect_setTable {action : Action} (h : session.placedBy? action = none)
    (rows : List Row) : session.Effect action (session.setTable rows).2 := by
  rw [setTable]
  cases ht : OpTable.ofRows rows with
  | error e => exact .keeps h
  | ok table => exact .setsTable h (.ofRows ht)

private theorem effect_place {action : Action} {source : List (List String)}
    (h : action.source? = some source) : session.Effect action (session.place source).2 := by
  have hplaced : session.placedBy? action =
      if (session.place source).1.isOk then some (session.table, source) else none := by
    rw [placedBy?, h]
    rfl
  rcases hp : session.place source with ⟨e | lines, next⟩
  · have hsame := session.place_snd_of_error (congrArg Prod.fst hp)
    rw [hp] at hplaced hsame
    obtain rfl : next = session := hsame
    exact .keeps hplaced
  · rw [hp] at hplaced
    obtain ⟨p, hreads, hfit, -, hfresh, -, rfl⟩ := place_eq_ok_iff.mp hp
    exact .places hplaced hreads hfit hfresh

/-- Every operation has one of the four effects. -/
theorem effect_perform (action : Action) : session.Effect action (session.perform action).2 := by
  cases action with
  | setTable rows => exact session.effect_setTable rfl rows
  | setTableText text =>
    simp only [perform, setTableText]
    cases Row.ofText text with
    | error e => exact .keeps rfl
    | ok rows => exact session.effect_setTable rfl rows
  | resetTable => exact .setsTable rfl .standard
  | place source => exact session.effect_place rfl
  | encode listing => exact .keeps rfl
  | resetSymbols => exact .forgets rfl
  | assemble text =>
    simp only [perform, assemble_snd]
    exact session.effect_place rfl

/-! ### The invariant -/

/-- What holds of a session after a history of operations. -/
structure Invariant (options : Options) (actions : List Action) (session : Session) : Prop where
  /-- The limits are those of the beginning. -/
  options_eq : session.options = options
  /-- The instruction table is well formed. -/
  table : session.table.WellFormed
  /-- The symbols are well formed. -/
  symbols : session.symbols.WellFormed options
  /-- The layout is that of no program or of a whole one. -/
  layout : session.layout.IsSettled options.limit
  /-- When every program starts without symbols, those of the session are none or have exactly the
  labels of the program that was placed last, in the order of its lines, at rising addresses from
  its start to its location counter. -/
  last_placed : options.clearSymbols = true → session.symbols = .empty ∨
    ∃ table source k, (start options).lastPlaced? actions = some (table, source) ∧
      (Placement.grammar options table).EndsAt source k ∧
      session.symbols.entries.map Symbol.name =
        (Placement.grammar options table).labelsUpTo source k ∧
      (session.symbols.entries.Pairwise fun a b ↦ a.address < b.address) ∧
      ∀ entry ∈ session.symbols.entries, session.layout.startAddress ≤ entry.address ∧
        entry.address ≤ session.layout.locationCounter

variable {options : Options} {actions : List Action} {session}

private theorem wellFormed_empty : SymbolTable.empty.WellFormed options :=
  ⟨.nil, fun _ h ↦ absurd h List.not_mem_nil, fun _ h ↦ absurd h List.not_mem_nil⟩

/-- The symbols that a program starts with are well formed when those of the session are. -/
private theorem wellFormed_knownSymbols (h : session.symbols.WellFormed options) :
    session.knownSymbols.WellFormed options := by
  rw [knownSymbols]
  split
  · exact wellFormed_empty
  · exact h

/-- Nothing has happened before the first operation. -/
theorem invariant_start (options : Options) : Invariant options [] (start options) where
  options_eq := rfl
  table := OpTable.wellFormed_standard
  symbols := wellFormed_empty
  layout := Or.inl rfl
  last_placed _ := Or.inl rfl

/-- An operation keeps the invariant, whether it succeeds or fails. -/
theorem Invariant.perform (h : Invariant options actions ((start options).after actions))
    (action : Action) :
    Invariant options (actions ++ [action])
      (((start options).after actions).perform action).2 := by
  have hlast := (start options).lastPlaced?_concat actions action
  have heffect := ((start options).after actions).effect_perform action
  generalize (start options).after actions = session at h hlast heffect ⊢
  generalize (session.perform action).2 = next at heffect
  cases heffect with
  | keeps hnone =>
    rw [hnone, Option.none_or] at hlast
    refine ⟨h.options_eq, h.table, h.symbols, h.layout, ?_⟩
    rw [hlast]
    exact h.last_placed
  | setsTable hnone htable =>
    rw [hnone, Option.none_or] at hlast
    refine ⟨h.options_eq, htable.wellFormed, h.symbols, h.layout, ?_⟩
    rw [hlast]
    exact h.last_placed
  | forgets _ => exact ⟨h.options_eq, h.table, wellFormed_empty, h.layout, fun _ ↦ Or.inl rfl⟩
  | @places source p hplaced hreads hfit hfresh =>
    rw [h.options_eq] at hreads hfit
    refine ⟨h.options_eq, h.table,
      Program.wellFormed_append hreads hfit hfresh (wellFormed_knownSymbols h.symbols),
      Program.isSettled_layout hreads hfit, ?_⟩
    intro hclear
    have hknown : session.knownSymbols.append p.symbols = ⟨p.symbols⟩ := by
      rw [knownSymbols, h.options_eq, if_pos hclear]
      rfl
    rw [hlast, hplaced, hknown]
    exact Or.inr ⟨session.table, source, p.listing.length, rfl, hreads.endsAt,
      hreads.labelsUpTo_eq.symm, Program.symbols_rise hreads,
      fun entry hm ↦ Program.address_of_mem_symbols hm⟩

/-- After every history of operations, failed ones included, the instruction table is well formed,
the symbols are well formed and the layout is settled; and when every program starts without
symbols, those of the session belong to the program that was placed last. -/
theorem invariant_after (options : Options) (actions : List Action) :
    Invariant options actions ((start options).after actions) := by
  induction actions using List.reverseRecOn with
  | nil => exact invariant_start options
  | append_singleton actions action ih =>
    rw [after_concat]
    exact ih.perform action

/-! ### Independence of the history -/

/-- The operations that can replace the instruction table. -/
def Action.setsTable : Action → Bool
  | setTable _ | setTableText _ | resetTable => true
  | place _ | encode _ | resetSymbols | assemble _ => false

/-- The table is kept by an operation that does not set it. -/
theorem table_perform {action : Action} (h : action.setsTable = false) :
    (session.perform action).2.table = session.table := by
  cases action with
  | setTable rows => cases h
  | setTableText text => cases h
  | resetTable => cases h
  | place source => rw [perform, session.place_snd]
  | encode listing => rfl
  | resetSymbols => rfl
  | assemble text => rw [perform, session.assemble_snd, session.place_snd]

/-- The table is kept by operations that do not set it. -/
theorem table_after (h : ∀ action ∈ actions, action.setsTable = false) :
    (session.after actions).table = session.table := by
  induction actions generalizing session with
  | nil => rfl
  | cons action rest ih =>
    have hrest : ((session.perform action).2.after rest).table =
        (session.perform action).2.table :=
      ih fun other ho ↦ h other (List.mem_cons_of_mem action ho)
    exact hrest.trans (table_perform (h action List.mem_cons_self))

/-- Sessions that place every source alike: they have the same limits and the same table, and they
start every program without symbols. -/
structure Agrees (a b : Session) : Prop where
  options_eq : a.options = b.options
  table_eq : a.table = b.table
  clearSymbols : b.options.clearSymbols = true

variable {a b : Session}

/-- Sessions that agree refuse a source alike, each staying as it was, or place it alike and are
the same session then. -/
theorem Agrees.place (h : a.Agrees b) (source : List (List String)) :
    (∃ e, a.place source = (.error e, a) ∧ b.place source = (.error e, b)) ∨
      a.place source = b.place source := by
  obtain ⟨options, table, symbols, layout⟩ := a
  obtain ⟨options', table', symbols', layout'⟩ := b
  obtain rfl : options = options' := h.options_eq
  obtain rfl : table = table' := h.table_eq
  have hclear : options.clearSymbols = true := h.clearSymbols
  simp only [Session.place, knownSymbols, hclear, ↓reduceIte]
  rcases Placement.run options table .empty source with ⟨e | placed, final⟩
  · exact Or.inl ⟨e, rfl, rfl⟩
  · exact Or.inr rfl

/-- Sessions that agree refuse a text alike, each staying as it was, or give the same answer and are
the same session then. -/
theorem Agrees.assemble (h : a.Agrees b) (text : String) :
    (∃ e, a.assemble text = (.error e, a) ∧ b.assemble text = (.error e, b)) ∨
      a.assemble text = b.assemble text := by
  rcases h.place (Token.ofText text) with ⟨e, ha, hb⟩ | hsame
  · refine Or.inl ⟨e, ?_, ?_⟩
    · exact a.assemble_of_place_error (congrArg Prod.fst ha)
    · exact b.assemble_of_place_error (congrArg Prod.fst hb)
  · refine Or.inr ?_
    rw [Session.assemble, Session.assemble, hsame]

/-- Sessions that agree give the same answer to a text, and if it is an assembly, they are the same
session then. -/
theorem Agrees.assemble_fst (h : a.Agrees b) (text : String) :
    (a.assemble text).1 = (b.assemble text).1 ∧
      ∀ assembly, (a.assemble text).1 = .ok assembly →
        (a.assemble text).2 = (b.assemble text).2 := by
  rcases h.assemble text with ⟨e, ha, hb⟩ | hsame
  · rw [ha, hb]
    exact ⟨rfl, fun _ hok ↦ by cases hok⟩
  · rw [hsame]
    exact ⟨rfl, fun _ _ ↦ rfl⟩

/-- Histories that lead to the same table lead to sessions that agree. -/
theorem agrees_after (hclear : options.clearSymbols = true) {first second : List Action}
    (h : ((start options).after first).table = ((start options).after second).table) :
    ((start options).after first).Agrees ((start options).after second) := by
  have hfirst := (invariant_after options first).options_eq
  have hsecond := (invariant_after options second).options_eq
  exact ⟨hfirst.trans hsecond.symm, h, by rwa [hsecond]⟩

/-- When every program starts without symbols, two histories that lead to the same instruction table
lead to sessions that give the same answer to every text, and that are the same session after an
assembly. In particular, a text is assembled twice with the same answer, whatever operations come in
between that do not set the table. -/
theorem assemble_history_independent (options : Options) (hclear : options.clearSymbols = true)
    (first second : List Action)
    (htable : ((start options).after first).table = ((start options).after second).table)
    (text : String) :
    (((start options).after first).assemble text).1 =
        (((start options).after second).assemble text).1 ∧
      (∀ assembly, (((start options).after first).assemble text).1 = .ok assembly →
        (((start options).after first).assemble text).2 =
          (((start options).after second).assemble text).2) ∧
      ∀ between : List Action, (∀ action ∈ between, action.setsTable = false) →
        (((start options).after (first ++ .assemble text :: between)).assemble text).1 =
          (((start options).after first).assemble text).1 := by
  obtain ⟨hanswer, hsession⟩ := (agrees_after hclear htable).assemble_fst text
  refine ⟨hanswer, hsession, ?_⟩
  intro between hbetween
  have hkeep : ((start options).after (first ++ .assemble text :: between)).table =
      ((start options).after first).table := by
    rw [after_append]
    exact table_after (List.forall_mem_cons.mpr ⟨rfl, hbetween⟩)
  exact ((agrees_after hclear hkeep).assemble_fst text).1

/-- A history that leaves a symbol and one that leaves none lead to the same answer for the sample
text, and it has the same answer again after its symbols have been forgotten. -/
theorem assemble_history_independent_sample :
    ∃ first second,
      ((start {}).after first).symbols ≠ ((start {}).after second).symbols ∧
      ((start {}).after first).table = ((start {}).after second).table ∧
      (((start {}).after first).assemble Program.sampleText).1 =
        (((start {}).after second).assemble Program.sampleText).1 ∧
      (((start {}).after
          (first ++ .assemble Program.sampleText :: [.resetSymbols])).assemble
            Program.sampleText).1 =
        (((start {}).after first).assemble Program.sampleText).1 := by
  refine ⟨[.place [["P", "START", "16"], ["A", "WORD", "1"], ["END"]]], [.resetSymbols],
    by decide +kernel, by decide +kernel, ?_⟩
  obtain ⟨hanswer, -, hagain⟩ := assemble_history_independent {} rfl
    [.place [["P", "START", "16"], ["A", "WORD", "1"], ["END"]]] [.resetSymbols]
    (by decide +kernel) Program.sampleText
  exact ⟨hanswer, hagain _ (by simp [Action.setsTable])⟩

end Session

end SicXe
