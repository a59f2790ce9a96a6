/-!
# File paths

Paths are texts whose names are separated by slashes. The extension of a file name is what follows
its last dot, unless that dot is the first character.
-/

namespace SicXe.Path

/-- The names of a path, from first to last; neighbouring slashes have an empty name between
them. -/
def splitNames : List Char → List (List Char)
  | [] => [[]]
  | c :: cs =>
    if c = '/' then [] :: splitNames cs
    else
      match splitNames cs with
      | [] => [[c]]
      | name :: others => (c :: name) :: others

/-- The names of a path as texts. -/
def names (path : String) : List String :=
  (splitNames path.toList).map String.ofList

/-- The characters after the last occurrence of a separator, or all of them. -/
def afterLast (separator : Char) (cs : List Char) : List Char :=
  (cs.reverse.takeWhile (· != separator)).reverse

/-- The characters up to and including the last occurrence of a separator. -/
def throughLast (separator : Char) (cs : List Char) : List Char :=
  (cs.reverse.dropWhile (· != separator)).reverse

/-- A file name without its extension and the dot before it. -/
def stem (name : List Char) : List Char :=
  match (throughLast '.' name).dropLast with
  | [] => name
  | before => before

/-- A file name without its extension but with the dot before it. -/
def openName (name : List Char) : List Char :=
  match (throughLast '.' name).dropLast with
  | [] => name
  | before => before ++ ['.']

/-- The path of a file with its extension replaced. A name that is `..` without its extension
denotes the parent directory, and that has none. -/
def withExtension (path extension : String) : String :=
  let name := afterLast '/' path.toList
  let directory := throughLast '/' path.toList
  if openName name = ['.', '.'] then String.ofList (directory ++ openName name)
  else String.ofList (directory ++ stem name ++ '.' :: extension.toList)

/-- A path is the characters up to its last slash followed by its file name. -/
theorem throughLast_append_afterLast (separator : Char) (cs : List Char) :
    throughLast separator cs ++ afterLast separator cs = cs := by
  rw [throughLast, afterLast, ← List.reverse_append, List.takeWhile_append_dropWhile,
    List.reverse_reverse]

end SicXe.Path
