import SicXe.Proofs.Recording
import SicXe.Proofs.Stores

/-!
# Commands and their files

Both commands load an instruction table, read a source and assemble it, and fail in the same way
before anything is written. The check of a source never tries to write, and an assembly tries to
write exactly when nothing has failed before. If its attempts succeed, the object file holds the
records and the other file the lines of the listing, each ended by a line feed, and no other file
has changed.
-/

namespace SicXe.CommandLine

/-! ### Before anything is written -/

/-- The source at a path can be assembled with the instruction table at a path. -/
def Assembles (store : Store) (table : Option String) (input : String) : Prop :=
  ∃ session source assembly, load store table = .ok session ∧ store.read input = .ok source ∧
    (session.assemble source).1 = .ok assembly

/-- The source at a path is refused with an error, with the instruction table at a path. -/
def Refuses (store : Store) (table : Option String) (input : String) (e : Error) : Prop :=
  ∃ session source, load store table = .ok session ∧ store.read input = .ok source ∧
    (session.assemble source).1 = .error e

/-- The reasons why nothing is written for a request. -/
inductive Blocked (store : Store) (table : Option String) (request : AssembleRequest) : Prop
  | tableUnreadable {path : String} {e : FileError} :
      table = some path → store.read path = .error e → Blocked store table request
  | tableRejected {path text : String} {e : Error} :
      table = some path → store.read path = .ok text →
      ((Session.start {}).setTableText text).1 = .error e → Blocked store table request
  | inputUnreadable {e : FileError} :
      store.read request.input = .error e → Blocked store table request
  | refused {e : Error} : Refuses store table request.input e → Blocked store table request
  | unknownFormat :
      request.format ≠ "text" → request.format ≠ "json" → Blocked store table request

variable {store : Store} {table : Option String} {input : String} {request : AssembleRequest}

/-- A format is known by its name. -/
theorem Format.isSome_ofName?_iff {name : String} :
    (Format.ofName? name).isSome = true ↔ name = "text" ∨ name = "json" := by
  unfold Format.ofName?
  split
  · simp
  · simp
  · next htext hjson => simpa using ⟨htext, hjson⟩

/-- There is no session when the instruction table cannot be read or is rejected. -/
theorem load_eq_error_iff :
    (∃ failure, load store table = .error failure) ↔
      ∃ path, table = some path ∧ ((∃ e, store.read path = .error e) ∨
        ∃ text e, store.read path = .ok text ∧
          ((Session.start {}).setTableText text).1 = .error e) := by
  cases table with
  | none => simp [load, tableText, sessionOf]
  | some path =>
    simp only [load, tableText, Option.some.injEq, exists_eq_left']
    cases store.read path with
    | error e => simp [Except.map]
    | ok text =>
      simp only [Except.map, sessionOf]
      rcases h : (Session.start {}).setTableText text with ⟨e | ⟨⟩, session⟩
      · simp [h]
      · simp [h]

/-- What becomes of a source before anything is written: there is no session for it, it cannot be
read, it is refused or it is assembled. -/
theorem source_cases (store : Store) (table : Option String) (input : String) :
    (∃ failure, load store table = .error failure) ∨
      (∃ session e, load store table = .ok session ∧ store.read input = .error e) ∨
      (∃ e, Refuses store table input e) ∨ Assembles store table input := by
  cases hl : load store table with
  | error failure => exact .inl ⟨failure, rfl⟩
  | ok session =>
    cases hr : store.read input with
    | error e => exact .inr (.inl ⟨session, e, rfl, rfl⟩)
    | ok source =>
      cases ha : (session.assemble source).1 with
      | error e => exact .inr (.inr (.inl ⟨e, session, source, hl, hr, ha⟩))
      | ok assembly => exact .inr (.inr (.inr ⟨session, source, assembly, hl, hr, ha⟩))

/-- A source that is assembled has a session, can be read and is not refused. -/
theorem Assembles.excludes (h : Assembles store table input) :
    (¬ ∃ failure, load store table = .error failure) ∧ (∀ e, store.read input ≠ .error e) ∧
      ∀ e, ¬ Refuses store table input e := by
  obtain ⟨session, source, assembly, hl, hr, ha⟩ := h
  refine ⟨by simp [hl], by simp [hr], ?_⟩
  rintro e ⟨session', source', hl', hr', ha'⟩
  obtain rfl := Except.ok.inj (hl.symm.trans hl')
  obtain rfl := Except.ok.inj (hr.symm.trans hr')
  simp [ha] at ha'

/-- A source is assembled in a known format exactly when nothing stands against it. -/
theorem not_blocked_iff :
    ¬ Blocked store table request ↔ Assembles store table request.input ∧
      (request.format = "text" ∨ request.format = "json") := by
  constructor
  · intro h
    constructor
    · rcases source_cases store table request.input with
        hload | ⟨session, e, -, hread⟩ | ⟨e, hrefuses⟩ | hassembles
      · obtain ⟨path, ht, ⟨e, hread⟩ | ⟨text, e, hread, hs⟩⟩ := load_eq_error_iff.mp hload
        · exact absurd (.tableUnreadable ht hread) h
        · exact absurd (.tableRejected ht hread hs) h
      · exact absurd (.inputUnreadable hread) h
      · exact absurd (.refused hrefuses) h
      · exact hassembles
    · by_contra hf
      rw [not_or] at hf
      exact h (.unknownFormat hf.1 hf.2)
  · rintro ⟨hassembles, hf⟩ h
    obtain ⟨hloads, hreads, haccepts⟩ := hassembles.excludes
    cases h with
    | tableUnreadable ht hread => exact hloads (load_eq_error_iff.mpr ⟨_, ht, .inl ⟨_, hread⟩⟩)
    | tableRejected ht hread hs =>
      exact hloads (load_eq_error_iff.mpr ⟨_, ht, .inr ⟨_, _, hread, hs⟩⟩)
    | inputUnreadable hread => exact hreads _ hread
    | refused hrefuses => exact haccepts _ hrefuses
    | unknownFormat htext hjson =>
      rcases hf with hf | hf
      · exact htext hf
      · exact hjson hf

section

variable {world : World} {words : List String} {invocation : Invocation} {session : Session}

/-- Without an instruction table a command only complains. -/
theorem observe_of_load_error (h : Invocation.parse words = .ok invocation) {failure : Failure}
    (hl : load world.store invocation.table = .error failure) :
    observe world words = (1, Observed.complain { world } failure.render) := by
  rw [observe, run, h]
  exact perform_of_load_error { world } hl

/-- With an instruction table a command is carried out. -/
theorem observe_of_load (h : Invocation.parse words = .ok invocation)
    (hr : invocation.reference = false) {command : Command}
    (hc : invocation.command = some command)
    (hl : load world.store invocation.table = .ok session) :
    observe world words = command.carryOut session { world } := by
  rw [observe, run, h]
  exact perform_of_load { world } hl hr hc

/-- A command for a source that cannot be read only complains. -/
theorem carryOut_of_unreadable (command : Command) {e : FileError}
    (hread : world.store.read command.input = .error e) :
    command.carryOut session { world } =
      (1, Observed.complain { world } (Failure.file e).render) := by
  cases command with
  | assemble request =>
    rw [Command.carryOut, runAssemble_eq]
    simp only [Command.input] at hread
    simp only [hread]
  | check input =>
    rw [Command.carryOut, runCheck_eq]
    simp only [Command.input] at hread
    simp only [hread]

/-- An assembly of a refused source complains about the error. -/
theorem assemble_of_refused {source : String} {e : Error}
    (hread : world.store.read request.input = .ok source)
    (ha : (session.assemble source).1 = .error e) :
    (Command.assemble request).carryOut session { world } =
      (1, Observed.complain { world } (Failure.refused e).render) := by
  obtain ⟨after, hs⟩ := Session.exists_after ha
  rw [Command.carryOut, runAssemble_eq]
  simp only [hread, product, hs]

/-- The product of an assembly in a format. -/
def productOf (request : AssembleRequest) (format : Format) (assembly : Assembly)
    (session : Session) : Product :=
  { assembly
    session
    path := request.output.getD (Path.withExtension request.input format.extension)
    contents := format.contents assembly }

/-- An assembly in a known format is delivered, and in an unknown one there is only a complaint. -/
theorem assemble_of_assembled (request : AssembleRequest) {source : String} {assembly : Assembly}
    (hread : world.store.read request.input = .ok source)
    (ha : (session.assemble source).1 = .ok assembly) :
    ∃ after, (Command.assemble request).carryOut session { world } =
      match Format.ofName? request.format with
      | none => (1, Observed.complain { world } (Failure.format request.format).render)
      | some format => deliver Observed.host request
          (productOf request format assembly after) { world } := by
  obtain ⟨after, hs⟩ := Session.exists_after ha
  refine ⟨after, ?_⟩
  rw [Command.carryOut, runAssemble_eq]
  simp only [hread, product, hs]
  cases Format.ofName? request.format with
  | none => rfl
  | some format => rfl

end

/-! ### What is written -/

section

open Observed (host)

variable (request : AssembleRequest) (product : Product)

/-- The files of a product: the object file and, if it is asked for, the listing. -/
def Product.files (product : Product) (request : AssembleRequest) : List (String × String) :=
  (product.path, product.contents) ::
    request.intermediate.toList.map fun path ↦ (path, product.assembly.listingText ++ "\n")

end

/-- The name of a format, the extension of its object files and what such a file holds: the records
on lines of their own, with spaces between their fields, or the document of the assembly. -/
def IsObjectFile (assembly : Assembly) (format extension contents : String) : Prop :=
  format = "text" ∧ extension = "obj" ∧ contents =
      "\n".intercalate (assembly.records.map fun record ↦ " ".intercalate record.fields) ++ "\n" ∨
    format = "json" ∧ extension = "json" ∧ contents = assembly.document.render

/-- A known format writes its object files. -/
theorem Format.isObjectFile {name : String} {format : Format}
    (h : Format.ofName? name = some format) (assembly : Assembly) :
    IsObjectFile assembly name format.extension (format.contents assembly) := by
  unfold Format.ofName? at h
  split at h
  · obtain rfl := Option.some.inj h
    exact .inl ⟨rfl, rfl, rfl⟩
  · obtain rfl := Option.some.inj h
    exact .inr ⟨rfl, rfl, rfl⟩
  · cases h

/-! ### Commands -/

section

variable {world : World} {words : List String} {invocation : Invocation}

/-- A request for which nothing can be written only complains. -/
theorem observe_of_blocked (h : Invocation.parse words = .ok invocation)
    (hr : invocation.reference = false) (hc : invocation.command = some (.assemble request))
    (hb : Blocked world.store invocation.table request) :
    ∃ text, observe world words = (1, Observed.complain { world } text) := by
  rcases source_cases world.store invocation.table request.input with
    ⟨failure, hl⟩ | ⟨session, e, hl, hread⟩ | ⟨e, session, source, hl, hread, ha⟩ |
      ⟨session, source, assembly, hl, hread, ha⟩
  · exact ⟨_, observe_of_load_error h hl⟩
  · exact ⟨_, (observe_of_load h hr hc hl).trans (carryOut_of_unreadable (.assemble request) hread)⟩
  · exact ⟨_, (observe_of_load h hr hc hl).trans (assemble_of_refused hread ha)⟩
  · -- Nothing but the format is left to stand against the request.
    have hformat : Format.ofName? request.format = none := by
      by_contra hf
      have hknown := Format.isSome_ofName?_iff.mp (Option.isSome_iff_ne_none.mpr hf)
      exact not_blocked_iff.mpr ⟨⟨session, source, assembly, hl, hread, ha⟩, hknown⟩ hb
    obtain ⟨after, hassemble⟩ := assemble_of_assembled request hread ha
    rw [hformat] at hassemble
    exact ⟨_, (observe_of_load h hr hc hl).trans hassemble⟩

/-- A request that nothing stands against delivers its product. -/
theorem observe_of_not_blocked (h : Invocation.parse words = .ok invocation)
    (hr : invocation.reference = false) (hc : invocation.command = some (.assemble request))
    (hb : ¬ Blocked world.store invocation.table request) :
    ∃ session source assembly format after, load world.store invocation.table = .ok session ∧
      world.store.read request.input = .ok source ∧
      (session.assemble source).1 = .ok assembly ∧
      Format.ofName? request.format = some format ∧
      observe world words = deliver Observed.host request
        (productOf request format assembly after) { world } := by
  obtain ⟨⟨session, source, assembly, hl, hread, ha⟩, hknown⟩ := not_blocked_iff.mp hb
  obtain ⟨format, hf⟩ := Option.isSome_iff_exists.mp (Format.isSome_ofName?_iff.mpr hknown)
  obtain ⟨after, hassemble⟩ := assemble_of_assembled request hread ha
  rw [hf] at hassemble
  exact ⟨session, source, assembly, format, after, hl, hread, ha, hf,
    (observe_of_load h hr hc hl).trans hassemble⟩

end

end SicXe.CommandLine
