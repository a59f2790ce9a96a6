import SicXe.Store

/-!
# Hosts

A command reads and writes files and prints text through a host. One host is a world that is a
plain value: a store and what has been printed so far.
-/

namespace SicXe.CommandLine

/-- What a command needs from the system it runs on. -/
structure Host (m : Type → Type) where
  /-- The text of a file. -/
  read : String → m (Except FileError String)
  /-- A file gets a text. -/
  write : String → String → m (Except FileError Unit)
  /-- Text for the user. -/
  out : String → m Unit
  /-- Text about failures. -/
  err : String → m Unit

/-- A working directory and what has been printed. -/
structure World where
  /-- The files. -/
  store : Store
  /-- Text for the user. -/
  out : String := ""
  /-- Text about failures. -/
  err : String := ""
  deriving DecidableEq, Repr

namespace World

/-- A write that fails leaves the world as it is. -/
def write (world : World) (path text : String) : Except FileError Unit × World :=
  match world.store.write path text with
  | .error e => (.error e, world)
  | .ok store => (.ok (), { world with store })

/-- The host whose system is a world. -/
def host : Host (StateM World) where
  read path := fun world ↦ (world.store.read path, world)
  write path text := fun world ↦ world.write path text
  out text := fun world ↦ ((), { world with out := world.out ++ text })
  err text := fun world ↦ ((), { world with err := world.err ++ text })

end World

end SicXe.CommandLine
