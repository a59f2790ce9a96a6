import SicXe.Assembly
import SicXe.Encoding
import SicXe.Placement

/-!
# Assembler sessions

A session holds the instruction table, the symbols and the layout between operations. An operation
returns its result and the session after it. Placing a program replaces symbols and layout when it
succeeds; encoding only reads them; assembling does the one and then the other on the text of the
listing. These are the interfaces of `SPEC_FULL.md` §6 on the facade of §10.6.
-/

namespace SicXe

/-- An assembler between two operations. -/
structure Session where
  /-- The limits of all programs of the session. -/
  options : Options
  /-- The instruction table in use. -/
  table : OpTable
  /-- The labels of the last placed program. -/
  symbols : SymbolTable
  /-- The layout of the last placed program. -/
  layout : Layout
  deriving DecidableEq, Repr

namespace Session

/-- A session before its first operation. -/
def start (options : Options) : Session :=
  { options, table := .standard, symbols := .empty, layout := .initial }

/-- Rows replace the instruction table, if they form one: `setInstructions` of `SPEC_FULL.md` §6. -/
def setTable (session : Session) (rows : List Row) : Except Error Unit × Session :=
  match OpTable.ofRows rows with
  | .error e => (.error e, session)
  | .ok table => (.ok (), { session with table })

/-- The rows of a text replace the instruction table, if they form one. -/
def setTableText (session : Session) (text : String) : Except Error Unit × Session :=
  match Row.ofText text with
  | .error e => (.error e, session)
  | .ok rows => session.setTable rows

/-- The standard instruction table is put back. -/
def resetTable (session : Session) : Session :=
  { session with table := .standard }

/-- All labels are forgotten: `resetSymbolTable` of `SPEC_FULL.md` §6. -/
def resetSymbols (session : Session) : Session :=
  { session with symbols := .empty }

/-- The labels that are defined before a program is placed. -/
def knownSymbols (session : Session) : SymbolTable :=
  if session.options.clearSymbols then .empty else session.symbols

/-- A program is placed; its symbols and layout are kept if that succeeds, and otherwise the session
stays as it was (`SPEC_FULL.md` §10.6). -/
def place (session : Session) (source : List (List String)) :
    Except Error (List Listing.Line) × Session :=
  match Placement.run session.options session.table session.knownSymbols source with
  | (.error e, _) => (.error e, session)
  | (.ok placed, symbols) =>
    (.ok placed.lines, { session with symbols, layout := placed.layout })

/-- A listing is encoded with the symbols and the layout of the last placed program. -/
def encode (session : Session) (listing : List (List String)) : Except Error (List Record) :=
  Encoding.run session.symbols session.layout listing

/-- A source text is placed, and the text of its listing is encoded (`assemble` of
`SPEC_FULL.md` §10.6). -/
def assemble (session : Session) (source : String) : Except Error Assembly × Session :=
  match session.place (Token.ofText source) with
  | (.error e, after) => (.error e, after)
  | (.ok listing, after) =>
    match after.encode (Token.ofText (Listing.render listing)) with
    | .error e => (.error e, after)
    | .ok records => (.ok { listing, symbols := after.symbols.entries, records }, after)

/-- An assembly leaves a session behind. -/
theorem exists_after {session : Session} {source : String} {result : Except Error Assembly}
    (h : (session.assemble source).1 = result) :
    ∃ after, session.assemble source = (result, after) := by
  rw [← h]
  exact ⟨_, (Prod.eta (session.assemble source)).symm⟩

end Session

/-- The assembly of a source text with the standard table and limits. -/
def assemble (source : String) : Except Error Assembly :=
  ((Session.start {}).assemble source).1

end SicXe
