import SicXe.CommandLine.Run
import Mathlib.Data.List.Infix

/-!
# Commands on a recording host

To say what a command writes, it is run on a host that keeps a record of every attempt to write. The
record changes nothing about the run: exit code and world are those of the plain host. On the
recording host each part of a command has an equation that says what it does to the world and to the
record.
-/

namespace SicXe.CommandLine

/-! ### Recording what is written -/

/-- An attempt to write a file, with what came of it. -/
structure Attempt where
  /-- The path of the file. -/
  path : String
  /-- What the file was to hold. -/
  text : String
  /-- Whether the file was written. -/
  result : Except FileError Unit
  deriving DecidableEq

/-- A world with a record of the attempts to write in it. -/
structure Observed where
  /-- The world. -/
  world : World
  /-- The attempts, first to last. -/
  attempts : List Attempt := []

namespace Observed

/-- Something that happens in the world without an attempt to write. -/
def aside {α : Type} (action : StateM World α) : StateM Observed α := fun s ↦
  ((action s.world).1, { s with world := (action s.world).2 })

/-- More text for the user. -/
def say (s : Observed) (text : String) : Observed :=
  { s with world := { s.world with out := s.world.out ++ text } }

/-- More text about failures. -/
def complain (s : Observed) (text : String) : Observed :=
  { s with world := { s.world with err := s.world.err ++ text } }

/-- One more attempt to write. -/
def tried (s : Observed) (path text : String) : Observed :=
  { world := (s.world.write path text).2
    attempts := s.attempts ++ [{ path, text, result := (s.world.write path text).1 }] }

@[simp] theorem attempts_say (s : Observed) (text : String) :
    (s.say text).attempts = s.attempts := rfl

@[simp] theorem attempts_complain (s : Observed) (text : String) :
    (s.complain text).attempts = s.attempts := rfl

@[simp] theorem attempts_tried (s : Observed) (path text : String) :
    (s.tried path text).attempts =
      s.attempts ++ [{ path, text, result := (s.world.write path text).1 }] := rfl

/-- The host of a world that records what is written. -/
def host : Host (StateM Observed) where
  read path := aside (World.host.read path)
  write path text := fun s ↦ ((s.world.write path text).1, s.tried path text)
  out text := aside (World.host.out text)
  err text := aside (World.host.err text)

/-- An action of the recording host does in the world what the plain action does. -/
def Mirrors {α : Type} (x : StateM Observed α) (y : StateM World α) : Prop :=
  ∀ s, (x s).1 = (y s.world).1 ∧ (x s).2.world = (y s.world).2

namespace Mirrors

variable {α β : Type} {x : StateM Observed α} {y : StateM World α}

theorem pure (a : α) : Mirrors (Pure.pure a) (Pure.pure a) :=
  fun _ ↦ ⟨rfl, rfl⟩

theorem bind {f : α → StateM Observed β} {g : α → StateM World β} (h : Mirrors x y)
    (hf : ∀ a, Mirrors (f a) (g a)) : Mirrors (x >>= f) (y >>= g) := by
  intro s
  obtain ⟨hvalue, hworld⟩ := h s
  change (f (x s).1 (x s).2).1 = (g (y s.world).1 (y s.world).2).1 ∧
    (f (x s).1 (x s).2).2.world = (g (y s.world).1 (y s.world).2).2
  rw [← hvalue, ← hworld]
  exact hf _ _

theorem read (path : String) : Mirrors (host.read path) (World.host.read path) :=
  fun _ ↦ ⟨rfl, rfl⟩

theorem write (path text : String) : Mirrors (host.write path text) (World.host.write path text) :=
  fun _ ↦ ⟨rfl, rfl⟩

theorem out (text : String) : Mirrors (host.out text) (World.host.out text) :=
  fun _ ↦ ⟨rfl, rfl⟩

theorem err (text : String) : Mirrors (host.err text) (World.host.err text) :=
  fun _ ↦ ⟨rfl, rfl⟩

theorem fail (failure : Failure) : Mirrors (CommandLine.fail host failure)
    (CommandLine.fail World.host failure) :=
  (err _).bind fun _ ↦ pure 1

theorem writeListing (path : Option String) (assembly : Assembly) :
    Mirrors (CommandLine.writeListing host path assembly)
      (CommandLine.writeListing World.host path assembly) := by
  cases path with
  | none => exact pure _
  | some path =>
    apply (write _ _).bind
    intro result
    cases result with
    | error e => exact pure _
    | ok _ => exact (out _).bind fun _ ↦ pure _

theorem deliver (request : AssembleRequest) (product : Product) :
    Mirrors (CommandLine.deliver host request product)
      (CommandLine.deliver World.host request product) := by
  apply (write _ _).bind
  intro result
  cases result with
  | error e => exact fail _
  | ok _ =>
    apply (out _).bind
    intro _
    apply (writeListing _ _).bind
    intro result
    cases result with
    | error e => exact fail _
    | ok _ => exact (out _).bind fun _ ↦ pure _

theorem runAssemble (session : Session) (request : AssembleRequest) :
    Mirrors (CommandLine.runAssemble host session request)
      (CommandLine.runAssemble World.host session request) := by
  apply (read _).bind
  intro result
  cases result with
  | error e => exact fail _
  | ok source =>
    dsimp only
    cases product session request source with
    | error failure => exact fail _
    | ok product => exact deliver _ _

theorem runCheck (session : Session) (input : String) :
    Mirrors (CommandLine.runCheck host session input)
      (CommandLine.runCheck World.host session input) := by
  apply (read _).bind
  intro result
  cases result with
  | error e => exact fail _
  | ok source =>
    dsimp only
    rcases session.assemble source with ⟨e | assembly, after⟩
    · exact (err _).bind fun _ ↦ fail _
    · exact (out _).bind fun _ ↦ pure _

theorem readTable (path : Option String) :
    Mirrors (CommandLine.readTable host path) (CommandLine.readTable World.host path) := by
  cases path with
  | none => exact pure _
  | some path => exact (read _).bind fun _ ↦ pure _

theorem perform (invocation : Invocation) :
    Mirrors (CommandLine.perform host invocation)
      (CommandLine.perform World.host invocation) := by
  apply (readTable _).bind
  intro result
  cases result with
  | error e => exact fail _
  | ok text =>
    dsimp only
    cases sessionOf text with
    | error failure => exact fail _
    | ok session =>
      dsimp only
      split
      · exact (out _).bind fun _ ↦ pure _
      · split
        · exact fail _
        · exact runAssemble _ _
        · exact runCheck _ _

theorem run (words : List String) :
    Mirrors (CommandLine.run host words) (CommandLine.run World.host words) := by
  unfold CommandLine.run
  split
  · exact (err _).bind fun _ ↦ pure _
  · exact (out _).bind fun _ ↦ pure _
  · exact (out _).bind fun _ ↦ pure _
  · exact perform _

end Mirrors

end Observed

/-- The run of a command line in a world, with a record of its attempts to write. -/
def observe (world : World) (words : List String) : UInt32 × Observed :=
  run Observed.host words { world }

/-- The attempts of a command line to write. -/
def attempts (world : World) (words : List String) : List Attempt :=
  (observe world words).2.attempts

/-- Recording the attempts to write changes neither the exit code nor the world. -/
theorem runIn_eq (world : World) (words : List String) :
    runIn world words = ((observe world words).1, (observe world words).2.world) := by
  obtain ⟨hcode, hworld⟩ := Observed.Mirrors.run words { world }
  exact Prod.ext hcode.symm hworld.symm

/-! ### What a command does -/

/-- The text of the instruction table at a path, if there is one. -/
def tableText (store : Store) (path : Option String) : Except FileError (Option String) :=
  match path with
  | none => .ok none
  | some path => (store.read path).map some

/-- The session of the instruction table at a path, or of the standard one. -/
def load (store : Store) (path : Option String) : Except Failure Session :=
  match tableText store path with
  | .error e => .error (.file e)
  | .ok text => sessionOf text

/-- The path of the source of a command. -/
def Command.input : Command → String
  | assemble request => request.input
  | check input => input

/-- What a command does with its session. -/
def Command.carryOut (session : Session) : Command → StateM Observed UInt32
  | assemble request => runAssemble Observed.host session request
  | check input => runCheck Observed.host session input

section

variable {invocation : Invocation} {session : Session}

open Observed (host)

variable {α : Type} (s : Observed)

theorem bind_eq {β : Type} (x : StateM Observed β) (f : β → StateM Observed α) :
    (x >>= f) s = f (x s).1 (x s).2 := rfl

theorem read_bind (path : String) (f : Except FileError String → StateM Observed α) :
    (host.read path >>= f) s = f (s.world.store.read path) s := rfl

theorem write_bind (path text : String) (f : Except FileError Unit → StateM Observed α) :
    (host.write path text >>= f) s = f (s.world.write path text).1 (s.tried path text) := rfl

theorem out_bind (text : String) (f : Unit → StateM Observed α) :
    (host.out text >>= f) s = f () (s.say text) := rfl

/-- A failure is told and gives the exit code one. -/
theorem fail_eq (failure : Failure) : fail host failure s = (1, s.complain failure.render) := rfl

theorem readTable_bind (path : Option String)
    (f : Except FileError (Option String) → StateM Observed α) :
    (readTable host path >>= f) s = f (tableText s.world.store path) s := by
  cases path with
  | none => rfl
  | some path => rfl

/-- Without an instruction table no command is reached. -/
theorem perform_of_load_error {failure : Failure}
    (h : load s.world.store invocation.table = .error failure) :
    perform host invocation s = (1, s.complain failure.render) := by
  unfold load at h
  rw [perform, readTable_bind]
  cases ht : tableText s.world.store invocation.table with
  | error e =>
    rw [ht] at h
    obtain rfl := Except.error.inj h
    rfl
  | ok text =>
    simp only [ht] at h
    simp only [h, fail_eq]

/-- With an instruction table, and without the reference card, a command is carried out. -/
theorem perform_of_load {command : Command}
    (h : load s.world.store invocation.table = .ok session)
    (hr : invocation.reference = false) (hc : invocation.command = some command) :
    perform host invocation s = command.carryOut session s := by
  unfold load at h
  rw [perform, readTable_bind]
  cases ht : tableText s.world.store invocation.table with
  | error e => simp [ht] at h
  | ok text =>
    simp only [ht] at h
    simp only [h, hr, hc, Bool.false_eq_true, ↓reduceIte]
    cases command with
    | assemble request => rfl
    | check input => rfl

/-- A check reads its source and tells whether it can be assembled. -/
theorem runCheck_eq (session : Session) (input : String) :
    runCheck host session input s =
      match s.world.store.read input with
      | .error e => (1, s.complain (Failure.file e).render)
      | .ok source =>
        match session.assemble source with
        | (.error e, _) => (1, (s.complain ("✗ " ++ input ++ " has errors:\n")).complain
            (Failure.refused e).render)
        | (.ok assembly, after) => (0, s.say (validReport input assembly after)) := by
  rw [runCheck, read_bind]
  cases s.world.store.read input with
  | error e => rfl
  | ok source =>
    dsimp only
    rcases session.assemble source with ⟨e | assembly, after⟩ <;> rfl

/-- An assembly reads its source and writes what it makes of it. -/
theorem runAssemble_eq (session : Session) (request : AssembleRequest) :
    runAssemble host session request s =
      match s.world.store.read request.input with
      | .error e => (1, s.complain (Failure.file e).render)
      | .ok source =>
        match product session request source with
        | .error failure => (1, s.complain failure.render)
        | .ok product => deliver host request product s := by
  rw [runAssemble, read_bind]
  cases s.world.store.read request.input with
  | error e => rfl
  | ok source =>
    dsimp only
    cases product session request source <;> rfl

end

/-! ### What a delivery does -/

section

open Observed (host)

variable (request : AssembleRequest) (product : Product) (s : Observed)

/-- The world and the record after the object file of a product has been written. -/
def Product.afterObject (product : Product) (s : Observed) : Observed :=
  (s.tried product.path product.contents).say ("✓ Assembled to " ++ product.path ++ "\n")

/-- Without a path no listing is written. -/
theorem writeListing_none (assembly : Assembly) :
    writeListing host none assembly s = (.ok (), s) := rfl

/-- A delivery that cannot write the object file ends there. -/
theorem deliver_of_error {e : FileError}
    (h : (s.world.write product.path product.contents).1 = .error e) :
    deliver host request product s =
      (1, (s.tried product.path product.contents).complain (Failure.file e).render) := by
  rw [deliver, write_bind, h]
  rfl

/-- A delivery goes on to the listing when the object file is written. -/
theorem deliver_of_ok (h : (s.world.write product.path product.contents).1 = .ok ()) :
    deliver host request product s =
      match writeListing host request.intermediate product.assembly (product.afterObject s) with
      | (.error e, after) => (1, after.complain (Failure.file e).render)
      | (.ok (), after) => (0, after.say (productReport product request.symbols)) := by
  have hafter : (s.tried product.path product.contents).say
      ("✓ Assembled to " ++ product.path ++ "\n") = product.afterObject s := rfl
  rw [deliver, write_bind, h]
  dsimp only
  rw [out_bind, bind_eq, hafter]
  rcases writeListing host request.intermediate product.assembly (product.afterObject s) with
    ⟨e | ⟨⟩, after⟩
  · rfl
  · rfl

/-- A write in a world succeeds exactly when its store can be written. -/
theorem World.write_eq_ok_iff {world : World} {path text : String} :
    (world.write path text).1 = .ok () ↔ ∃ after, world.store.write path text = .ok after ∧
      (world.write path text).2 = { world with store := after } := by
  unfold World.write
  cases world.store.write path text with
  | error e => simp
  | ok after => simp

end

end SicXe.CommandLine
