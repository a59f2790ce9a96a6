import SicXe.Store
import Mathlib.Data.List.Infix

/-!
# Writing into a store

A path that can be written denotes one location, and writing changes the text at this location and
nothing else: other files keep their texts, and no directory appears or disappears. So what a path
denotes does not depend on what has been written before.
-/

namespace SicXe.Store

variable {store after : Store} {location other : List String} {path text : String}

/-! ### Directories -/

/-- A directory leads to the working directory, to a listed one or to that of a file. -/
theorem isDirectory_iff :
    store.isDirectory location = true ↔ location <+: store.working ∨
      (∃ directory ∈ store.directories, location <+: directory) ∨
      ∃ file ∈ store.files, location <+: file.location.dropLast := by
  simp only [isDirectory, List.cons_append, List.any_cons, List.any_append, List.any_map,
    Bool.or_eq_true, List.any_eq_true, Function.comp_apply, List.isPrefixOf_iff_prefix]

/-- What leads to a directory is a directory. -/
theorem isDirectory_of_isPrefix (h : store.isDirectory location = true)
    (hp : other <+: location) : store.isDirectory other = true := by
  apply isDirectory_iff.mpr
  rcases isDirectory_iff.mp h with hw | ⟨directory, hd, hbelow⟩ | ⟨file, hfile, hbelow⟩
  · exact .inl (hp.trans hw)
  · exact .inr (.inl ⟨directory, hd, hp.trans hbelow⟩)
  · exact .inr (.inr ⟨file, hfile, hp.trans hbelow⟩)

/-- The directory from which a path leads is a directory. -/
theorem isDirectory_origin (store : Store) (names : List String) :
    store.isDirectory (store.origin names) = true := by
  apply isDirectory_iff.mpr
  left
  rw [origin]
  split
  · exact List.nil_prefix
  · exact List.prefix_rfl

/-- Putting a file keeps the listed directories and the working directory. -/
theorem directories_put (store : Store) (location : List String) (text : String) :
    (store.put location text).directories = store.directories ∧
      (store.put location text).working = store.working := by
  unfold put
  split <;> exact ⟨rfl, rfl⟩

/-- Putting a file adds at most its location to the locations of files. -/
theorem exists_file_put {P : List String → Prop} :
    (∃ file ∈ (store.put location text).files, P file.location) ↔
      (∃ file ∈ store.files, P file.location) ∨ P location := by
  unfold put
  split
  · next hold =>
    -- The location has a file already, and replacing its text keeps all locations.
    have hsame : ∀ file : File, (if file.location = location then (⟨location, text⟩ : File)
        else file).location = file.location := by
      intro file
      split
      · next h => exact h.symm
      · rfl
    obtain ⟨old, hold⟩ := Option.isSome_iff_exists.mp hold
    obtain ⟨file, hfile, -⟩ := Option.map_eq_some_iff.mp hold
    have hlocation : file.location = location := by simpa using List.find?_some hfile
    simp only [List.mem_map, exists_exists_and_eq_and, hsame]
    constructor
    · exact Or.inl
    · rintro (h | h)
      · exact h
      · exact ⟨file, List.mem_of_find?_eq_some hfile, by rwa [hlocation]⟩
  · simp only [List.mem_append, List.mem_singleton, or_and_right, exists_or, exists_eq_left]

/-- A file in a directory makes no new directory. -/
theorem isDirectory_put (h : store.isDirectory location.dropLast = true) :
    (store.put location text).isDirectory other = store.isDirectory other := by
  obtain ⟨hdirectories, hworking⟩ := directories_put store location text
  apply Bool.eq_iff_iff.mpr
  rw [isDirectory_iff, hdirectories, hworking, exists_file_put (P := fun l ↦ other <+: l.dropLast),
    ← or_assoc, ← or_assoc, or_assoc (a := other <+: store.working), ← isDirectory_iff]
  constructor
  · rintro (hother | hp)
    · exact hother
    · exact isDirectory_of_isPrefix h hp
  · exact Or.inl

/-- A name leads from a directory to a directory. -/
theorem isDirectory_enter {directory next : List String} {name : String}
    (h : store.enter directory name = .ok next) (hd : store.isDirectory directory = true) :
    store.isDirectory next = true := by
  unfold enter at h
  split at h
  · obtain rfl := Except.ok.inj h
    exact hd
  · split at h
    · obtain rfl := Except.ok.inj h
      exact isDirectory_of_isPrefix hd (List.dropLast_prefix directory)
    · split at h
      · next hnext =>
        obtain rfl := Except.ok.inj h
        exact hnext
      · split at h <;> cases h

/-- A walk from a directory ends in a directory. -/
theorem isDirectory_walk {directory final names : List String}
    (h : store.walk directory names = .ok final) (hd : store.isDirectory directory = true) :
    store.isDirectory final = true := by
  induction names generalizing directory with
  | nil =>
    obtain rfl := Except.ok.inj h
    exact hd
  | cons name rest ih =>
    rw [walk] at h
    cases hn : store.enter directory name with
    | error e =>
      rw [hn] at h
      cases h
    | ok next =>
      rw [hn] at h
      exact ih h (isDirectory_enter hn hd)

/-- A name leads to the same directory in a store with the same directories. -/
theorem enter_of_sameDirectories (hs : ∀ l, after.isDirectory l = store.isDirectory l)
    {directory next : List String} {name : String}
    (h : store.enter directory name = .ok next) : after.enter directory name = .ok next := by
  unfold enter at h ⊢
  rw [hs]
  split at h
  · next hstay =>
    rw [if_pos hstay]
    exact h
  · next hstay =>
    rw [if_neg hstay]
    split at h
    · next hup =>
      rw [if_pos hup]
      exact h
    · next hup =>
      rw [if_neg hup]
      split at h
      · next hnext =>
        rw [if_pos hnext]
        exact h
      · split at h <;> cases h

/-- Names lead to the same directory in a store with the same directories. -/
theorem walk_of_sameDirectories (hs : ∀ l, after.isDirectory l = store.isDirectory l)
    {directory final names : List String} (h : store.walk directory names = .ok final) :
    after.walk directory names = .ok final := by
  induction names generalizing directory with
  | nil => exact h
  | cons name rest ih =>
    rw [walk] at h ⊢
    cases hn : store.enter directory name with
    | error e =>
      rw [hn] at h
      cases h
    | ok next =>
      rw [hn] at h
      rw [enter_of_sameDirectories hs hn]
      exact ih h

/-! ### Locations of paths -/

/-- The location that a path denotes when it is written. -/
def location? (store : Store) (path : String) : Option (List String) :=
  match store.resolve (dropTrailing (Path.names path)) with
  | .error _ => none
  | .ok (directory, last) =>
    if (Path.names path).getLast? = some "" ∨ namesDirectory last = true then none
    else if store.isDirectory (directory ++ [last]) then none
    else some (directory ++ [last])

/-- Writing puts the text at the location that the path denotes. -/
theorem write_eq_ok_iff :
    store.write path text = .ok after ↔
      ∃ location, store.location? path = some location ∧ after = store.put location text := by
  simp only [write, location?]
  cases store.resolve (dropTrailing (Path.names path)) with
  | error e => simp
  | ok pair =>
    obtain ⟨directory, last⟩ := pair
    dsimp only
    split
    · simp
    · split
      · simp
      · simp only [Except.ok.injEq, Option.some.injEq, exists_eq_left']
        exact eq_comm

/-- The end of a path that does not end in a slash is its last name. -/
theorem dropTrailing_of_getLast? {names : List String} (h : names.getLast? ≠ some "") :
    dropTrailing names = names := by
  rw [dropTrailing]
  split
  · rfl
  · cases hr : names.reverse with
    | nil => rw [← List.reverse_reverse names, hr]; rfl
    | cons last before =>
      have hlast : last ≠ "" := by
        rintro rfl
        rw [← List.head?_reverse, hr] at h
        exact h rfl
      rw [List.dropWhile_cons_of_neg (by simpa using hlast), ← hr, List.reverse_reverse]

/-- Names have a directory and a last name when they are those of a path that is not empty and all
but the last one lead to a directory. -/
theorem resolve_eq_ok_iff {names directory : List String} {last : String} :
    store.resolve names = .ok (directory, last) ↔
      names ≠ [""] ∧ names.getLast? = some last ∧
        store.walk (store.origin names) names.dropLast = .ok directory := by
  unfold resolve
  cases names.getLast? with
  | none => simp
  | some final =>
    dsimp only
    split
    · next hempty => simp [hempty]
    · next hempty =>
      cases store.walk (store.origin names) names.dropLast with
      | error e => simp [Except.map]
      | ok found => simp [Except.map, hempty, and_comm]

/-- A path denotes a location when it ends in the name of a file and what comes before leads to a
directory. -/
theorem location?_eq_some_iff :
    store.location? path = some location ↔
      ∃ directory last, store.resolve (Path.names path) = .ok (directory, last) ∧
        namesDirectory last = false ∧ store.isDirectory (directory ++ [last]) = false ∧
        location = directory ++ [last] := by
  unfold location?
  by_cases hlast : (Path.names path).getLast? = some ""
  · -- Without its trailing slashes the path may denote something, but not as it stands.
    constructor
    · intro h
      split at h
      · cases h
      · rw [if_pos (Or.inl hlast)] at h
        cases h
    · rintro ⟨directory, last, hr, hname, -⟩
      obtain ⟨-, hl, -⟩ := resolve_eq_ok_iff.mp hr
      rw [hlast] at hl
      obtain rfl := Option.some.inj hl
      cases hname
  · rw [dropTrailing_of_getLast? hlast]
    cases store.resolve (Path.names path) with
    | error e => simp
    | ok pair =>
      obtain ⟨directory, last⟩ := pair
      simp only [hlast, false_or, Except.ok.injEq, Prod.mk.injEq]
      split
      · next hname =>
        constructor
        · intro h
          cases h
        · rintro ⟨_, _, ⟨rfl, rfl⟩, hfile, -⟩
          rw [hname] at hfile
          cases hfile
      · next hname =>
        split
        · next hd =>
          constructor
          · intro h
            cases h
          · rintro ⟨_, _, ⟨rfl, rfl⟩, -, hfile, -⟩
            rw [hd] at hfile
            cases hfile
        · next hd =>
          constructor
          · intro h
            exact ⟨directory, last, ⟨rfl, rfl⟩, Bool.not_eq_true _ ▸ hname, Bool.not_eq_true _ ▸ hd,
              (Option.some.inj h).symm⟩
          · rintro ⟨_, _, ⟨rfl, rfl⟩, -, -, rfl⟩
            rfl

/-- The location of a path lies in a directory. -/
theorem isDirectory_of_location? (h : store.location? path = some location) :
    store.isDirectory location.dropLast = true := by
  obtain ⟨directory, last, hr, -, -, rfl⟩ := location?_eq_some_iff.mp h
  obtain ⟨-, -, hw⟩ := resolve_eq_ok_iff.mp hr
  rw [List.dropLast_concat]
  exact isDirectory_walk hw (isDirectory_origin _ _)

/-- Names lead to the same place in a store with the same directories. -/
theorem resolve_of_sameDirectories (hs : ∀ l, after.isDirectory l = store.isDirectory l)
    (hw : after.working = store.working) {names : List String} {found : List String × String}
    (h : store.resolve names = .ok found) : after.resolve names = .ok found := by
  obtain ⟨directory, last⟩ := found
  obtain ⟨hne, hlast, hwalk⟩ := resolve_eq_ok_iff.mp h
  have horigin : after.origin names = store.origin names := by rw [origin, origin, hw]
  apply resolve_eq_ok_iff.mpr
  rw [horigin]
  exact ⟨hne, hlast, walk_of_sameDirectories hs hwalk⟩

/-- A path denotes the same location in a store with the same directories. -/
theorem location?_of_sameDirectories (hs : ∀ l, after.isDirectory l = store.isDirectory l)
    (hw : after.working = store.working) (h : store.location? path = some location) :
    after.location? path = some location := by
  obtain ⟨directory, last, hr, hname, hfile, rfl⟩ := location?_eq_some_iff.mp h
  apply location?_eq_some_iff.mpr
  exact ⟨directory, last, resolve_of_sameDirectories hs hw hr, hname, by rw [hs, hfile], rfl⟩

/-- Writing does not change what paths denote. -/
theorem location?_put (hl : store.location? path = some location) (other : String) :
    (store.put location text).location? other = store.location? other := by
  have hs : ∀ l, (store.put location text).isDirectory l = store.isDirectory l :=
    fun l ↦ isDirectory_put (isDirectory_of_location? hl)
  have hw := (directories_put store location text).2
  cases h : store.location? other with
  | some l => exact location?_of_sameDirectories hs hw h
  | none =>
    cases h' : (store.put location text).location? other with
    | none => rfl
    | some l =>
      rw [location?_of_sameDirectories (fun l ↦ (hs l).symm) hw.symm h'] at h
      cases h

/-! ### Texts of files -/

/-- Putting a file leaves the texts of all others. -/
theorem text?_put_of_ne (h : other ≠ location) :
    (store.put location text).text? other = store.text? other := by
  unfold put
  split
  · have hsame : ((fun file : File ↦ file.location == other) ∘ fun file ↦
        if file.location = location then ⟨location, text⟩ else file) =
        fun file ↦ file.location == other := by
      funext file
      by_cases hfile : file.location = location <;> simp [hfile]
    simp only [text?, List.find?_map, hsame]
    cases hfile : store.files.find? fun file ↦ file.location == other with
    | none => rfl
    | some file =>
      have hother : file.location = other := by simpa using List.find?_some hfile
      simp [hother, h]
  · have hne : (location == other) = false := by simpa using Ne.symm h
    simp [text?, List.find?_append, hne]

/-- Reading a path gives the text at the location that it denotes. -/
theorem read_of_location? (hl : store.location? path = some location)
    (ht : store.text? location = some text) : store.read path = .ok text := by
  obtain ⟨directory, last, hr, hname, -, rfl⟩ := location?_eq_some_iff.mp hl
  simp [read, hr, hname, ht]

/-! ### Several files -/

/-- A store after files have been written, given by their paths and texts: each path denotes a file
with its text, other files are as they were, and paths denote what they denoted. -/
structure HasWritten (before after : Store) (files : List (String × String)) : Prop where
  locations : ∀ path, after.location? path = before.location? path
  texts : ∀ path text, (path, text) ∈ files →
    ∃ location, before.location? path = some location ∧ after.text? location = some text
  others : ∀ location, (∀ file ∈ files, before.location? file.1 ≠ some location) →
    after.text? location = before.text? location

namespace HasWritten

variable {before : Store} {files : List (String × String)}

/-- Nothing is written at first. -/
theorem refl (store : Store) : store.HasWritten store [] where
  locations _ := rfl
  texts _ _ h := by cases h
  others _ _ := rfl

/-- A written file can be read. -/
theorem read (h : before.HasWritten after files) (hfile : (path, text) ∈ files) :
    after.read path = .ok text := by
  obtain ⟨location, hl, ht⟩ := h.texts path text hfile
  rw [← h.locations] at hl
  exact read_of_location? hl ht

/-- One more file is written, other than those before it. -/
theorem write {middle : Store} (h : before.HasWritten middle files)
    (hw : middle.write path text = .ok after)
    (hne : ∀ file ∈ files, before.location? file.1 ≠ before.location? path) :
    before.HasWritten after (files ++ [(path, text)]) := by
  obtain ⟨location, hl, rfl⟩ := write_eq_ok_iff.mp hw
  have hbefore : before.location? path = some location := by rw [← h.locations, hl]
  refine ⟨?_, ?_, ?_⟩
  · intro other
    rw [location?_put hl, h.locations]
  · intro other written hmem
    rcases List.mem_append.mp hmem with hold | hnew
    · obtain ⟨l, hother, ht⟩ := h.texts other written hold
      have hdiffer : l ≠ location := by
        rintro rfl
        exact hne _ hold (hother.trans hbefore.symm)
      exact ⟨l, hother, by rw [text?_put_of_ne hdiffer, ht]⟩
    · obtain ⟨rfl, rfl⟩ := Prod.mk.inj (List.mem_singleton.mp hnew)
      exact ⟨location, hbefore, text?_put_self _ _ _⟩
  · intro l hl'
    have hdiffer : l ≠ location := by
      rintro rfl
      exact hl' (path, text) (by simp) hbefore
    rw [text?_put_of_ne hdiffer]
    apply h.others
    intro file hfile
    exact hl' file (List.mem_append_left _ hfile)

end HasWritten

end SicXe.Store
