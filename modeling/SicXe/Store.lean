import SicXe.Path

/-!
# Stores of files

A store holds the files and directories of a system, each under the names that lead to it from the
root, and the working directory of a command. A path that begins with a slash leads from the root,
every other one from the working directory. Whatever leads to a file or to a directory is a
directory, and a directory may hold nothing. Writing never makes a directory. There are no links and
no rights.
-/

namespace SicXe

/-- The reasons why a file cannot be read or written. -/
inductive FileError where
  /-- No file or directory has this name. -/
  | notFound
  /-- A file stands where a directory is needed. -/
  | notADirectory
  /-- A directory stands where a file is needed. -/
  | isADirectory
  /-- The file may not be used in this way. -/
  | permissionDenied
  /-- The file does not hold text. -/
  | notText
  /-- Any other reason, in words. -/
  | other (reason : String)
  deriving DecidableEq, Repr

namespace FileError

/-- A failure of the system with its code, kind and message. -/
def renderSystem (code kind message : String) : String :=
  "Os \x7b code: " ++ code ++ ", kind: " ++ kind ++ ", message: \"" ++ message ++ "\" \x7d"

/-- The wording of a failure. -/
def render : FileError → String
  | notFound => renderSystem "2" "NotFound" "No such file or directory"
  | notADirectory => renderSystem "20" "NotADirectory" "Not a directory"
  | isADirectory => renderSystem "21" "IsADirectory" "Is a directory"
  | permissionDenied => renderSystem "13" "PermissionDenied" "Permission denied"
  | notText =>
    "Error \x7b kind: InvalidData, message: \"stream did not contain valid UTF-8\" \x7d"
  | other reason => reason

end FileError

/-- A file with the names that lead to it from the root. -/
structure File where
  /-- The names of its directories and its own name. -/
  location : List String
  /-- What the file holds. -/
  text : String
  deriving DecidableEq, Repr

/-- Files, directories and a working directory. -/
structure Store where
  /-- The files, each location once. -/
  files : List File
  /-- Directories, also such as hold nothing. -/
  directories : List (List String) := []
  /-- The working directory. -/
  working : List String := []
  deriving DecidableEq, Repr

namespace Store

/-- The name of the directory above. -/
def parent : String := ".."

/-- The text of the file at a location. -/
def text? (store : Store) (location : List String) : Option String :=
  (store.files.find? fun file ↦ file.location == location).map File.text

/-- A location is a directory if it leads to a directory: to the working directory, to one that is
listed or to that of a file. -/
def isDirectory (store : Store) (location : List String) : Bool :=
  (store.working :: store.directories ++ store.files.map fun file ↦ file.location.dropLast).any
    location.isPrefixOf

/-- The directory that a name leads to from a directory; nothing lies above the root. -/
def enter (store : Store) (directory : List String) (name : String) :
    Except FileError (List String) :=
  if name = "" ∨ name = "." then .ok directory
  else if name = parent then .ok directory.dropLast
  else if store.isDirectory (directory ++ [name]) then .ok (directory ++ [name])
  else if (store.text? (directory ++ [name])).isSome then .error .notADirectory
  else .error .notFound

/-- The directory that names lead to, one after another. -/
def walk (store : Store) : List String → List String → Except FileError (List String)
  | directory, [] => .ok directory
  | directory, name :: rest => (store.enter directory name).bind fun next ↦ store.walk next rest

/-- The directory from which the names of a path lead: a slash at the beginning leaves an empty
first name and stands for the root. -/
def origin (store : Store) (names : List String) : List String :=
  if names.head? = some "" then [] else store.working

/-- The directory of a path and its last name; the empty path leads nowhere. -/
def resolve (store : Store) (names : List String) : Except FileError (List String × String) :=
  match names.getLast? with
  | none => .error .notFound
  | some last =>
    if names = [""] then .error .notFound
    else (store.walk (store.origin names) names.dropLast).map fun directory ↦ (directory, last)

/-- A last name that stands for a directory. -/
def namesDirectory (name : String) : Bool :=
  name == "" || name == "." || name == parent

/-- The text of the file at a path. -/
def read (store : Store) (path : String) : Except FileError String :=
  match store.resolve (Path.names path) with
  | .error e => .error e
  | .ok (directory, last) =>
    if namesDirectory last then .error .isADirectory
    else
      match store.text? (directory ++ [last]) with
      | some text => .ok text
      | none =>
        if store.isDirectory (directory ++ [last]) then .error .isADirectory
        else .error .notFound

/-- The file at a location gets a text; a new file comes last. -/
def put (store : Store) (location : List String) (text : String) : Store :=
  if (store.text? location).isSome then
    { store with
      files := store.files.map fun file ↦
        if file.location = location then ⟨location, text⟩ else file }
  else { store with files := store.files ++ [⟨location, text⟩] }

/-- The names of a path without the empty ones that slashes at its end leave, unless there are no
others. -/
def dropTrailing (names : List String) : List String :=
  if names.all (· == "") then names else (names.reverse.dropWhile (· == "")).reverse

/-- The file at a path gets a text; a path that ends in a slash stands for a directory. -/
def write (store : Store) (path text : String) : Except FileError Store :=
  let names := Path.names path
  match store.resolve (dropTrailing names) with
  | .error e => .error e
  | .ok (directory, last) =>
    if names.getLast? = some "" ∨ namesDirectory last = true then .error .isADirectory
    else if store.isDirectory (directory ++ [last]) then .error .isADirectory
    else .ok (store.put (directory ++ [last]) text)

/-- A store of files given by their paths; the working directory is named `work` and lies in the
root. -/
def ofPaths (files : List (String × String)) : Store :=
  let working := ["work"]
  { files := files.map fun (path, text) ↦
      { location := working ++ (Path.names path).filter fun name ↦ name != "" && name != ".", text }
    working }

/-- The files below the working directory that are new or hold another text than before, under
their paths from there. -/
def changes (before after : Store) : List (String × String) :=
  (after.files.filter fun file ↦
      after.working.isPrefixOf file.location && before.text? file.location != some file.text).map
    fun file ↦ ("/".intercalate (file.location.drop after.working.length), file.text)

/-- A file that was put can be found, with the text that it was given. -/
theorem text?_put_self (store : Store) (location : List String) (text : String) :
    (store.put location text).text? location = some text := by
  unfold put
  split
  · rename_i h
    obtain ⟨old, hold⟩ := Option.isSome_iff_exists.mp h
    simp only [text?, Option.map_eq_some_iff] at hold ⊢
    obtain ⟨file, hfile, _⟩ := hold
    refine ⟨⟨location, text⟩, ?_, rfl⟩
    rw [List.find?_map]
    have same : ((fun file : File ↦ file.location == location) ∘ fun file ↦
        if file.location = location then ⟨location, text⟩ else file) =
        fun file ↦ file.location == location := by
      funext f
      by_cases hf : f.location = location <;> simp [hf]
    rw [same, hfile]
    have := List.find?_some hfile
    simp_all
  · rename_i h
    simp only [Option.not_isSome_iff_eq_none] at h
    simp only [text?, Option.map_eq_none_iff] at h
    simp [text?, List.find?_append, h]

end Store

end SicXe
