import SicXe.Fault

/-!
# Layout of a program in memory

The layout is what is known of a program's place in memory while its lines are placed: the
location counter, the bounds announced by the directives and which of these have been seen. It is
the assembly state of `SPEC_FULL.md` §3, and the limits are the options of §10.4.
-/

namespace SicXe

/-- The highest value of an address field of 24 bits. -/
def maxField : Nat := 16777215

/-- The limits under which a program is assembled. -/
structure Options where
  /-- The highest address that a program may reach. -/
  maxAddress : Nat := maxField
  /-- The greatest number of characters of a label. -/
  maxLabelLength : Nat := 10
  /-- Whether every program starts with an empty symbol table. -/
  clearSymbols : Bool := true
  deriving DecidableEq, Repr

namespace Options

/-- The highest address under the options. Addresses are words of 32 bits, so no limit lies beyond
them. -/
def limit (options : Options) : Nat :=
  min options.maxAddress (UInt32.size - 1)

/-- The limit is a word of 32 bits. -/
theorem limit_lt (options : Options) : options.limit < UInt32.size :=
  Nat.lt_of_le_of_lt (Nat.min_le_right _ _) (by decide)

/-- The limit is at most the highest address. -/
theorem limit_le (options : Options) : options.limit ≤ options.maxAddress :=
  Nat.min_le_left _ _

/-- Raising the highest address never lowers the limit. -/
theorem limit_le_limit {options raised : Options} (h : options.maxAddress ≤ raised.maxAddress) :
    options.limit ≤ raised.limit := by
  rw [limit, limit]
  omega

end Options

/-- The place of a program in memory. -/
structure Layout where
  /-- The address of the next line. -/
  locationCounter : Nat := 0
  /-- The address of the first line. -/
  startAddress : Nat := 0
  /-- The address at which execution begins. -/
  entryAddress : Nat := 0
  /-- Whether the start directive has been placed. -/
  startSeen : Bool := false
  /-- Whether the end directive has been placed. -/
  endSeen : Bool := false
  deriving DecidableEq, Repr

namespace Layout

/-- The layout before the first line. -/
def initial : Layout := {}

/-- The number of bytes from the first line to the location counter. -/
def programLength (layout : Layout) : Nat :=
  layout.locationCounter - layout.startAddress

/-- The program starts at an address. -/
def openAt (layout : Layout) (address : Nat) : Layout :=
  { layout with locationCounter := address, startAddress := address, startSeen := true }

/-- The program ends, and execution begins at an address. -/
def closeAt (layout : Layout) (address : Nat) : Layout :=
  { layout with entryAddress := address, endSeen := true }

/-- The next `size` bytes are taken, if they end at or below the highest address. -/
def allocate (limit : Nat) (layout : Layout) (size : Nat) : Except Fault Layout :=
  if layout.locationCounter + size ≤ limit then
    .ok { layout with locationCounter := layout.locationCounter + size }
  else .error .overflow

/-- The entry address lies in the program or right after it. -/
def entryInside (layout : Layout) : Bool :=
  layout.startAddress ≤ layout.entryAddress && layout.entryAddress ≤ layout.locationCounter

/-- Bytes are taken exactly when they fit, and only the location counter moves. -/
theorem allocate_eq_ok_iff (limit : Nat) (layout next : Layout) (size : Nat) :
    layout.allocate limit size = .ok next ↔
      layout.locationCounter + size ≤ limit ∧
        next = { layout with locationCounter := layout.locationCounter + size } := by
  unfold allocate
  split
  · rename_i h
    simp only [Except.ok.injEq, h, true_and]
    exact eq_comm
  · rename_i h
    simp [h]

end Layout

end SicXe
