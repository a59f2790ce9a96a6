import SicXe.Proofs.LineByLine

/-!
# Reserve counts

A listing writes the count of a reserving directive in two hexadecimal digits, but a listing that is
read may spell it otherwise: any hexadecimal field from 1 to 255 is a count, with a sign, with fewer
digits or with leading zeros. Every other token is refused as the operand of its line.
-/

namespace SicXe.Encoding

open Text (IsHexNumber)

variable {symbols : SymbolTable} {layout : Layout} {slot directive operand : String}

/-- A count is a hexadecimal field that denotes a byte above zero. -/
theorem reserveCount_eq_ok_iff {n : Nat} :
    reserveCount operand = .ok n ↔ IsHexNumber operand n ∧ 1 ≤ n ∧ n ≤ 255 := by
  have hread : Text.readHexBelow? 256 operand = some n ↔ IsHexNumber operand n ∧ n < 256 :=
    Text.readHexBelow?_eq_some_iff
  unfold reserveCount
  split
  · next hnone =>
    rw [hnone] at hread
    simp only [reduceCtorEq, false_iff, not_and] at hread ⊢
    intro hnumber _ hle
    exact hread hnumber (by omega)
  · next hzero =>
    simp only [reduceCtorEq, false_iff, not_and]
    intro hnumber hpos
    have := hnumber.unique (Text.readHexBelow?_eq_some_iff.mp hzero).1
    omega
  · next m hne hm =>
    obtain ⟨hnumber, hlt⟩ := Text.readHexBelow?_eq_some_iff.mp hm
    constructor
    · intro h
      obtain rfl := Except.ok.inj h
      have hpos : m ≠ 0 := hne
      exact ⟨hnumber, by omega, by omega⟩
    · rintro ⟨hn, -, -⟩
      rw [hnumber.unique hn]

/-- A reserving directive in any case and the number of bytes in its unit. -/
def Reserves (directive : String) (unit : Nat) : Prop :=
  Text.uppercase directive = "RESB" ∧ unit = 1 ∨ Text.uppercase directive = "RESW" ∧ unit = 3

/-- The line of a reserving directive has the record of its count. -/
theorem lineRecord_reserve {unit : Nat} (h : Reserves directive unit) :
    lineRecord symbols [slot, directive, operand] =
      atLine (Token.join [slot, directive, operand])
        ((reserveCount operand).map fun n ↦ .reserve (Text.uppercase slot) (n * unit)) := by
  have bytes : Directive.ofToken? "RESB" = some (.storage .reserveBytes) := by decide
  have words : Directive.ofToken? "RESW" = some (.storage .reserveWords) := by decide
  rcases h with ⟨hname, rfl⟩ | ⟨hname, rfl⟩
  · simp only [lineRecord, Listing.Entry.parse, Listing.Entry.ofWritten, hname, Except.bind,
      entryRecord, bytes, required, storageRecord, Nat.mul_one]
  · simp only [lineRecord, Listing.Entry.parse, Listing.Entry.ofWritten, hname, Except.bind,
      entryRecord, words, required, storageRecord]

/-! ### Spellings of a count -/

/-- A count as a listing writes it: two hexadecimal digits, not both zero, and the number that they
denote. -/
def IsWrittenCount (operand : String) (n : Nat) : Prop :=
  ∃ a b high low, operand.toList = [a, b] ∧ Text.hexDigit? a = some high ∧
    Text.hexDigit? b = some low ∧ n = 16 * high + low ∧ 1 ≤ n

private theorem hexDigit?_lt {c : Char} {d : Nat} (h : Text.hexDigit? c = some d) : d < 16 := by
  have hascii : Text.isAscii c = true := by
    apply Text.isAscii_of_isHexDigit
    rw [Text.isHexDigit, h, Option.isSome_some]
  exact Text.forall_isAscii (p := fun c ↦ ∀ d ∈ Text.hexDigit? c, d < 16) (by decide) hascii d h

private theorem isHexRun_pair {a b : Char} {n : Nat} :
    Text.IsHexRun [a, b] n ↔ ∃ high low, Text.hexDigit? a = some high ∧
      Text.hexDigit? b = some low ∧ n = 16 * high + low := by
  have value (high low : Nat) : Nat.ofDigits 16 [high, low].reverse = 16 * high + low := by
    rw [List.reverse_cons, List.reverse_singleton, List.singleton_append, Nat.ofDigits_cons,
      Nat.ofDigits_singleton, Nat.add_comm]
  constructor
  · rintro ⟨-, ds, hds, rfl⟩
    match ds with
    | [high, low] =>
      simp only [List.map_cons, List.map_nil, List.cons.injEq, and_true] at hds
      exact ⟨high, low, hds.1, hds.2, value high low⟩
    | [] => simp at hds
    | [_] => simp at hds
    | _ :: _ :: _ :: _ => simp at hds
  · rintro ⟨high, low, ha, hb, rfl⟩
    exact ⟨by simp, [high, low], by simp [ha, hb], (value high low).symm⟩

/-- The written form of a count is the one of two characters without a sign, among the fields that
denote it. -/
theorem isWrittenCount_iff {n : Nat} :
    IsWrittenCount operand n ↔ IsHexNumber operand n ∧ 1 ≤ n ∧ n ≤ 255 ∧
      operand.toList.length = 2 ∧ '+' ∉ operand.toList := by
  constructor
  · rintro ⟨a, b, high, low, hs, ha, hb, rfl, hpos⟩
    have hhigh := hexDigit?_lt ha
    have hlow := hexDigit?_lt hb
    have hunsigned : '+' ∉ [a, b] := by
      have plus : Text.hexDigit? '+' = none := by decide
      rw [List.mem_pair]
      rintro (rfl | rfl)
      · cases ha.symm.trans plus
      · cases hb.symm.trans plus
    have hnumber : IsHexNumber operand (16 * high + low) := by
      left
      rw [hs]
      exact isHexRun_pair.mpr ⟨high, low, ha, hb, rfl⟩
    rw [hs]
    exact ⟨hnumber, hpos, by omega, rfl, hunsigned⟩
  · rintro ⟨hrun | ⟨cs, hs, -⟩, hpos, -, hlength, hunsigned⟩
    · obtain ⟨a, b, hs⟩ := List.length_eq_two.mp hlength
      rw [hs] at hrun
      obtain ⟨high, low, ha, hb, hn⟩ := isHexRun_pair.mp hrun
      exact ⟨a, b, high, low, hs, ha, hb, hn, hpos⟩
    · -- a sign would be one of the two characters
      exact absurd (hs ▸ List.mem_cons_self) hunsigned

/-! ### Listings -/

variable {name : String} {others : List String} {before after : List (List String)}
  {unit : Nat}

/-- A line whose count cannot be read is refused, whatever follows it. -/
theorem run_of_unreadable_count (hheader : IsEntry (name :: others))
    (hdirective : Reserves directive unit)
    (hbefore : ∀ line ∈ before, ∃ record, lineRecord symbols line = .ok record)
    (hcount : ¬ ∃ n, IsHexNumber operand n ∧ 1 ≤ n ∧ n ≤ 255) :
    run symbols layout ((name :: others) :: (before ++ [slot, directive, operand] :: after)) =
      .error ⟨.operand .reserveCount, Token.join [slot, directive, operand]⟩ := by
  have herror : reserveCount operand = .error (.operand .reserveCount) := by
    cases hread : reserveCount operand with
    | ok n => exact absurd ⟨n, reserveCount_eq_ok_iff.mp hread⟩ hcount
    | error fault => rw [reserveCount_eq_error hread]
  refine (LineByLine.refused hheader hbefore ?_).run_eq
  rw [lineRecord_reserve hdirective, herror]
  rfl

/-- A line whose count can be read has the record of its bytes, between those of the other lines. -/
theorem run_of_readable_count {rs ss : List Record} {n : Nat} (hheader : IsEntry (name :: others))
    (hlow : layout.startAddress ≤ layout.entryAddress)
    (hhigh : layout.entryAddress ≤ layout.locationCounter) (hdirective : Reserves directive unit)
    (hbefore : before.map (lineRecord symbols) = rs.map .ok)
    (hafter : after.map (lineRecord symbols) = ss.map .ok)
    (hnumber : IsHexNumber operand n) (hpos : 1 ≤ n) (hle : n ≤ 255) :
    run symbols layout ((name :: others) :: (before ++ [slot, directive, operand] :: after)) =
      .ok (.header (Text.uppercase name) layout.startAddress
          (layout.locationCounter - layout.startAddress) ::
        (rs ++ .reserve (Text.uppercase slot) (n * unit) :: ss) ++
          [.finish layout.entryAddress]) := by
  refine (LineByLine.records hheader ?_ hlow hhigh).run_eq
  have hread := reserveCount_eq_ok_iff.mpr ⟨hnumber, hpos, hle⟩
  rw [List.map_append, List.map_cons, List.map_append, List.map_cons, hbefore, hafter,
    lineRecord_reserve hdirective, hread]
  rfl

/-- The line of a reserving directive, between other lines that have records, is accepted exactly
when its operand is a hexadecimal field from 1 to 255, and then reserves that many units; any other
operand is refused with its line, whatever follows. The counts that listings write are those of
these fields that have two characters and no sign; the others are accepted as well. -/
theorem reserve_count_spellings (symbols : SymbolTable) (layout : Layout)
    (name slot directive operand : String) (others : List String) (unit : Nat)
    (before after : List (List String)) (rs ss : List Record)
    (hlow : layout.startAddress ≤ layout.entryAddress)
    (hhigh : layout.entryAddress ≤ layout.locationCounter)
    (hheader : IsEntry (name :: others)) (hdirective : Reserves directive unit)
    (hbefore : before.map (lineRecord symbols) = rs.map .ok)
    (hafter : after.map (lineRecord symbols) = ss.map .ok) :
    (∀ records,
      run symbols layout ((name :: others) :: (before ++ [slot, directive, operand] :: after)) =
          .ok records ↔
        ∃ n, IsHexNumber operand n ∧ 1 ≤ n ∧ n ≤ 255 ∧
          records = .header (Text.uppercase name) layout.startAddress
              (layout.locationCounter - layout.startAddress) ::
            (rs ++ .reserve (Text.uppercase slot) (n * unit) :: ss) ++
              [.finish layout.entryAddress]) ∧
      ((¬ ∃ n, IsHexNumber operand n ∧ 1 ≤ n ∧ n ≤ 255) → ∀ rest,
        run symbols layout ((name :: others) :: (before ++ [slot, directive, operand] :: rest)) =
          .error ⟨.operand .reserveCount, Token.join [slot, directive, operand]⟩) ∧
      ∀ n, IsWrittenCount operand n ↔ IsHexNumber operand n ∧ 1 ≤ n ∧ n ≤ 255 ∧
        operand.toList.length = 2 ∧ '+' ∉ operand.toList := by
  have hlines := exists_of_map_eq hbefore
  refine ⟨fun records ↦ ⟨fun hrun ↦ ?_, ?_⟩, fun hcount rest ↦ ?_, fun n ↦ isWrittenCount_iff⟩
  · -- an encoded listing has a count there, since any other operand is refused
    by_cases hcount : ∃ n, IsHexNumber operand n ∧ 1 ≤ n ∧ n ≤ 255
    · obtain ⟨n, hnumber, hpos, hle⟩ := hcount
      rw [run_of_readable_count hheader hlow hhigh hdirective hbefore hafter hnumber hpos hle]
        at hrun
      exact ⟨n, hnumber, hpos, hle, (Except.ok.inj hrun).symm⟩
    · rw [run_of_unreadable_count hheader hdirective hlines hcount] at hrun
      cases hrun
  · rintro ⟨n, hnumber, hpos, hle, rfl⟩
    exact run_of_readable_count hheader hlow hhigh hdirective hbefore hafter hnumber hpos hle
  · exact run_of_unreadable_count hheader hdirective hlines hcount

/-- A signed count of one word before an instruction is accepted, though no listing writes it. -/
theorem reserve_count_spellings_sample :
    run ⟨[]⟩ { locationCounter := 20, startAddress := 16, entryAddress := 16 }
        [["P", "START", "000010"], ["000010", "RESW", "+1"], ["000013", "FC"]] =
      .ok [.header "P" 16 4, .reserve "000010" 3, .text "000013" 1 "FC", .finish 16] ∧
    ¬ IsWrittenCount "+1" 1 := by
  have hafter : [["000013", "FC"]].map (lineRecord ⟨[]⟩) =
      [Record.text "000013" 1 "FC"].map .ok := by decide +kernel
  have spellings := reserve_count_spellings ⟨[]⟩
    { locationCounter := 20, startAddress := 16, entryAddress := 16 } "P" "000010" "RESW" "+1"
    ["START", "000010"] 3 [] [["000013", "FC"]] [] [.text "000013" 1 "FC"] (by decide) (by decide)
    ⟨by decide, by decide⟩ (.inr ⟨by decide +kernel, rfl⟩) rfl hafter
  have hnumber : IsHexNumber "+1" 1 := .inr ⟨['1'], by decide, by simp, [1], by decide, by decide⟩
  constructor
  · exact (spellings.1 _).mpr ⟨1, hnumber, by decide, by decide, by decide +kernel⟩
  · intro hwritten
    exact absurd ((spellings.2.2 1).mp hwritten).2.2.2.2 (by decide)

/-- A count of one digit is accepted, though a listing writes two. -/
theorem short_reserve_count_accepted :
    "1".toList.length ≠ 2 ∧
      run ⟨[]⟩ { locationCounter := 19, startAddress := 16, entryAddress := 16 }
          [["P", "START", "000010"], ["000010", "RESB", "1"]] =
        .ok [.header "P" 16 3, .reserve "000010" 1, .finish 16] := by
  decide +kernel

end SicXe.Encoding
