import SicXe.Text.Numeral

/-!
# JSON documents

Documents of numbers, strings, arrays and objects whose fields keep their order. A document is
written with one element on each line, indented by two spaces for each level.
-/

namespace SicXe.Text

/-- A JSON document. -/
inductive Json where
  | number (value : Nat)
  | string (value : String)
  | array (items : List Json)
  | object (fields : List (String × Json))

namespace Json

/-- A character inside a string: quotes, backslashes and the characters below a space are
escaped. -/
def escape (c : Char) : List Char :=
  if c = '"' then ['\\', '"']
  else if c = '\\' then ['\\', '\\']
  else if c = '\n' then ['\\', 'n']
  else if c = '\r' then ['\\', 'r']
  else if c = '\t' then ['\\', 't']
  else if c.toNat = 8 then ['\\', 'b']
  else if c.toNat = 12 then ['\\', 'f']
  else if c.toNat < 32 then ['\\', 'u'] ++ ((hexDigits c.toNat).leftpad 4 '0').map Char.toLower
  else [c]

/-- A string in quotes. -/
def quoted (s : String) : String :=
  String.ofList ('"' :: s.toList.flatMap escape ++ ['"'])

/-- A line break followed by the indentation of a level. -/
def lineBreak (level : Nat) : String :=
  String.ofList ('\n' :: List.replicate (2 * level) ' ')

/-- Items between brackets, each on a line of the next level; no items leave the brackets
empty. -/
def enclose (opening closing : String) (level : Nat) (items : List String) : String :=
  if items.isEmpty then opening ++ closing
  else
    opening ++ lineBreak (level + 1) ++ ("," ++ lineBreak (level + 1)).intercalate items ++
      lineBreak level ++ closing

mutual

/-- A document at a level of indentation. -/
def renderAt (level : Nat) : Json → String
  | number value => toString value
  | string value => quoted value
  | array items => enclose "[" "]" level (renderItems (level + 1) items)
  | object fields => enclose "\x7b" "\x7d" level (renderFields (level + 1) fields)

/-- The items of an array at a level of indentation. -/
def renderItems (level : Nat) : List Json → List String
  | [] => []
  | item :: rest => renderAt level item :: renderItems level rest

/-- The fields of an object at a level of indentation. -/
def renderFields (level : Nat) : List (String × Json) → List String
  | [] => []
  | (key, value) :: rest =>
    (quoted key ++ ": " ++ renderAt level value) :: renderFields level rest

end

/-- A document as text. -/
def render (document : Json) : String :=
  renderAt 0 document

end Json

end SicXe.Text
