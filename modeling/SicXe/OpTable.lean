import SicXe.Instruction
import SicXe.Text.Case

/-!
# Instruction tables

A table lists the instructions that an assembler accepts. Its constructors refuse a definition
that is wrong on its own, then a name that repeats an earlier one, then an opcode that repeats an
earlier one; so in every table that they build a name or an opcode determines the definition. The
rules are those of `SPEC_FULL.md` §4.2, and the texts those of §10.4.
-/

namespace SicXe

/-- The instructions that an assembler accepts, in order. -/
structure OpTable where
  /-- The definitions, in the order in which they were given. -/
  definitions : List Definition
  deriving DecidableEq, Repr

/-- The first element whose key is among the keys seen before it. -/
def firstRepeat? {α β : Type} [BEq β] (key : α → β) : List β → List α → Option α
  | _, [] => none
  | seen, a :: rest =>
    if seen.contains (key a) then some a else firstRepeat? key (key a :: seen) rest

namespace OpTable

/-- The table of definitions that are right one by one and together. -/
def distinct (definitions : List Definition) : Except Error OpTable :=
  match firstRepeat? (fun d : Definition ↦ Text.uppercase d.name) [] definitions with
  | some d => .error { fault := .duplicateName, line := d.name }
  | none =>
    match firstRepeat? Definition.opcode [] definitions with
    | some d =>
      .error { fault := .duplicateOpcode, line := d.name ++ " " ++ Text.hex 2 d.opcode.toNat }
    | none => .ok ⟨definitions⟩

/-- The table of typed definitions, under the rules of text rows (`SPEC_FULL.md` §10.2). -/
def ofDefinitions (definitions : List Definition) : Except Error OpTable :=
  match collect Definition.check definitions with
  | .error e => .error e
  | .ok checked => distinct checked

/-- The table of text rows: what `setInstructions` of `SPEC_FULL.md` §4.2 accepts. -/
def ofRows (rows : List Row) : Except Error OpTable :=
  match collect Row.read rows with
  | .error e => .error e
  | .ok definitions => ofDefinitions definitions

/-- The table of a text with a row on each line (`SPEC_FULL.md` §10.4). -/
def ofText (text : String) : Except Error OpTable :=
  match Row.ofText text with
  | .error e => .error e
  | .ok rows => ofRows rows

/-- The definition of a name, ignoring the case of ASCII letters. -/
def find? (table : OpTable) (name : String) : Option Definition :=
  table.definitions.find? fun d ↦ Text.sameName d.name name

/-- A table contains the names that it defines. -/
def contains (table : OpTable) (name : String) : Bool :=
  (table.find? name).isSome

/-- The table as text that reads back as the same table. -/
def render (table : OpTable) : String :=
  Text.joinLines (table.definitions.map Definition.render)

/-- The table that is in use until another one is given (`SPEC_FULL.md` §10.4). -/
def standard : OpTable where
  definitions :=
    [{ name := "JMP", opcode := 0x01, width := .four },
      { name := "LOADR1", opcode := 0x02, width := .four },
      { name := "LOADR2", opcode := 0x03, width := .four },
      { name := "ADD", opcode := 0x04, width := .two },
      { name := "SAVER1", opcode := 0x05, width := .four },
      { name := "INT", opcode := 0x06, width := .two }]

end OpTable

end SicXe
