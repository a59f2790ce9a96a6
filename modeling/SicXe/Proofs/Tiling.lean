import SicXe.Proofs.ListingText

/-!
# Tiling of memory

The body of a placed program fills memory from the start address to the location counter: each
line begins where the line before it ends, none of them is empty, and the last one ends at or below
the highest address. How much a line takes up is said by what it holds, a literal by the text
between its quotes.
-/

namespace SicXe

open Listing (Content Line Operand)

/-! ### Measures of contents -/

namespace Literal

/-- The characters between the quotes of a character literal or of a hexadecimal literal. -/
def inner? (token : String) : Option (List Char) := (characters? token).or (digits? token)

/-- The inner characters of a literal are all of it but a letter and two quotes. -/
theorem byteLength_of_inner? {token : String} {cs : List Char} (h : inner? token = some cs) :
    Text.byteLength token = Text.byteLength (String.ofList cs) + 3 := by
  have hascii : (∀ c ∈ cs, Text.isAscii c = true) ∧ Text.byteLength token = cs.length + 3 := by
    rcases Option.or_eq_some_iff.mp h with hc | ⟨-, hd⟩
    · exact ⟨(characters?_eq_some_iff.mp hc).2.2, byteLength_of_characters? hc⟩
    · have hx := (digits?_eq_some_iff.mp hd).2.2
      exact ⟨fun d hm ↦ Text.isAscii_of_isHexDigit (hx d hm), byteLength_of_digits? hd⟩
  rw [hascii.2, Text.byteLength_of_ascii (by simpa using hascii.1), String.toList_ofList]

end Literal

namespace Listing

/-- The number of bytes of what a content holds: three for a word, one for a byte, the text between
the quotes of a literal, as many as are set aside, and the width of an instruction's format. -/
def Content.measure? : Content → Option Nat
  | word _ => some 3
  | byte _ => some 1
  | literal token => (Literal.inner? token).map fun cs ↦ Text.byteLength (String.ofList cs)
  | reserveWords count => some (3 * count.toNat)
  | reserveBytes count => some count.toNat
  | instruction _ .none => some 1
  | instruction _ (.registers _ _) | instruction _ (.byte _) => some 2
  | instruction _ (.address _) | instruction _ (.symbol _) => some 4

/-- The size of a well-formed content is the measure of what it holds. -/
theorem Content.WellFormed.measure?_eq {c : Content} (h : c.WellFormed) :
    c.measure? = some c.size := by
  cases c with
  | literal token =>
    have hinner : ∃ cs, Literal.inner? token = some cs := by
      rcases h with ⟨cs, hc⟩ | ⟨ds, hd, -⟩
      · exact ⟨cs, Option.or_eq_some_iff.mpr (Or.inl hc)⟩
      · exact ⟨ds, Option.or_eq_some_iff.mpr
          (Or.inr ⟨Literal.characters?_eq_none_of_digits? hd, hd⟩)⟩
    obtain ⟨cs, hc⟩ := hinner
    rw [measure?, size, hc, Option.map_some, Literal.byteLength_of_inner? hc, Nat.add_sub_cancel]
  | instruction code operand => cases operand <;> rfl
  | _ => rfl

/-! ### Lines without a gap -/

/-- Body lines that fill memory from one address to another: each line stands where the line before
it ends, and takes up at least one byte. -/
inductive Tiles : Nat → List Line → Nat → Prop
  | nil (address : Nat) : Tiles address [] address
  | cons {low size high : Nat} {content : Content} {rest : List Line} :
      content.measure? = some size → 1 ≤ size → Tiles (low + size) rest high →
      Tiles low (.body low content :: rest) high

namespace Tiles

variable {low high i : Nat} {lines : List Line} {line : Line}

/-- Memory is filled upwards. -/
theorem le (h : Tiles low lines high) : low ≤ high := by
  induction h with
  | nil => exact Nat.le_refl _
  | cons _ _ _ ih => omega

/-- The first line stands at the lower address, and without lines nothing is filled. -/
theorem address_head (h : Tiles low lines high) :
    (lines[0]?.map Line.address).getD high = low := by
  cases h <;> rfl

/-- Each line is a body line that ends where the next one begins, or at the upper address. -/
theorem ends_at_next (h : Tiles low lines high) (hi : lines[i]? = some line) :
    ∃ content size, line = .body line.address content ∧ content.measure? = some size ∧
      1 ≤ size ∧ low ≤ line.address ∧ line.address + size ≤ high ∧
      (lines[i + 1]?.map Line.address).getD high = line.address + size := by
  induction h generalizing i with
  | nil => simp at hi
  | @cons low size high content rest hm hpos hrest ih =>
    cases i with
    | zero =>
      obtain rfl := Option.some.inj hi
      have hle := hrest.le
      refine ⟨content, size, rfl, hm, hpos, Nat.le_refl _, hle, ?_⟩
      rw [List.getElem?_cons_succ]
      exact hrest.address_head
    | succ i =>
      rw [List.getElem?_cons_succ] at hi
      obtain ⟨c, n, hl, hc, hn, hlow, hhigh, hnext⟩ := ih hi
      refine ⟨c, n, hl, hc, hn, by omega, hhigh, ?_⟩
      rwa [List.getElem?_cons_succ]

end Tiles

end Listing

/-! ### Placed programs -/

namespace Program

/-- The lines of items stand one after another. -/
theorem tiles_linesFrom {items : List Item} (h : ∀ item ∈ items, item.content.WellFormed)
    (address : Nat) :
    Listing.Tiles address (linesFrom address items) (address + extent items) := by
  induction items generalizing address with
  | nil => exact .nil address
  | cons item rest ih =>
    have hitem := h item List.mem_cons_self
    rw [linesFrom, extent_cons, ← Nat.add_assoc]
    exact .cons hitem.measure?_eq hitem.size_pos
      (ih (fun other ho ↦ h other (List.mem_cons_of_mem item ho)) _)

variable {g : Grammar} {limit : Nat} {source : List (List String)} {p : Program}

/-- A program starts above address zero and within the limit. -/
theorem start_bounds (h : g.Reads limit source p) : 1 ≤ p.start ∧ p.start ≤ limit := by
  obtain ⟨first, rest, -, ⟨s, operand, -, -, -, -, ha⟩, -⟩ := h
  exact (Placement.startAddress_eq_ok_iff.mp ha).2

end Program

namespace Placement

/-- The address of the line at a position; after the last line stands the location counter. -/
def Placed.addressAt (placed : Placed) (i : Nat) : Nat :=
  (placed.lines[i]?.map Line.address).getD placed.layout.locationCounter

private theorem toNat_ofNat_add {a b : Nat} (h : a + b < UInt32.size) :
    (UInt32.ofNat a + UInt32.ofNat b).toNat = a + b := by
  rw [UInt32.toNat_add, UInt32.toNat_ofNat_of_lt' (by omega), UInt32.toNat_ofNat_of_lt' (by omega)]
  exact Nat.mod_eq_of_lt h

variable {options : Options} {table : OpTable} {known final : SymbolTable}
  {source : List (List String)} {placed : Placed}

/-- The lines of a placed program after its start line, which is the only one, fill memory from the
start address to the location counter within the limit: each begins where the one before it ends
and takes up at least one byte, so 32-bit words are wide enough for all sums. -/
theorem run_tiles_memory (h : run options table known source = (.ok placed, final)) :
    (∃ label, placed.lines[0]? = some (.start label placed.layout.startAddress)) ∧
      (∀ (i : Nat) (label : String) (address : Nat),
        placed.lines[i]? = some (.start label address) → i = 0) ∧
      1 ≤ placed.layout.startAddress ∧
      placed.addressAt 1 = placed.layout.startAddress ∧
      (∀ (i address : Nat) (content : Content),
        placed.lines[i]? = some (.body address content) →
        ∃ size, content.measure? = some size ∧ 1 ≤ size ∧
          placed.addressAt (i + 1) = address + size ∧
          placed.layout.startAddress ≤ address ∧ address < placed.layout.locationCounter ∧
          (UInt32.ofNat address + UInt32.ofNat size).toNat = address + size) ∧
      placed.layout.locationCounter ≤ options.maxAddress := by
  obtain ⟨p, hreads, hfit, -, -, rfl, rfl⟩ := run_eq_ok_iff.mp h
  have htiles : Listing.Tiles p.start (Program.linesFrom p.start p.items) p.finish :=
    Program.tiles_linesFrom (Program.wellFormed_of_mem_items hreads) p.start
  refine ⟨⟨p.name, rfl⟩, ?_, (Program.start_bounds hreads).1, htiles.address_head, ?_,
    Nat.le_trans hfit options.limit_le⟩
  · intro i label address hi
    cases i with
    | zero => rfl
    | succ i =>
      obtain ⟨content, -, hbody, -⟩ := htiles.ends_at_next hi
      cases hbody
  · intro i address content hi
    cases i with
    | zero => cases Option.some.inj hi
    | succ i =>
      obtain ⟨found, size, hbody, hm, hpos, hlow, hhigh, hnext⟩ := htiles.ends_at_next hi
      obtain ⟨-, rfl⟩ := Line.body.inj hbody
      simp only [Line.address] at hlow hhigh hnext
      have hend : address < p.finish := by omega
      have hsum : address + size < UInt32.size := by
        have := options.limit_lt
        omega
      exact ⟨size, hm, hpos, hnext, hlow, hend, toNat_ofNat_add hsum⟩

/-- The literal of the sample text stands right before the line of the jump. -/
theorem run_tiles_memory_sample :
    ∃ placed final,
      run {} .standard .empty (Token.ofText Program.sampleText) = (.ok placed, final) ∧
      placed.lines[1]? = some (.body 256 (.literal "C\"a \tb\rc\"")) ∧
      ∃ size, Content.measure? (.literal "C\"a \tb\rc\"") = some size ∧ 1 ≤ size ∧
        placed.addressAt 2 = 256 + size ∧ placed.layout.locationCounter ≤ maxField := by
  obtain ⟨-, -, -, -, hall, hfit⟩ := run_tiles_memory Program.sample_run
  obtain ⟨size, hm, hpos, hnext, -⟩ := hall 1 256 _ rfl
  exact ⟨_, _, Program.sample_run, rfl, size, hm, hpos, hnext, hfit⟩

end Placement

end SicXe
