import SicXe.Proofs.Commands
import Mathlib.Data.List.TakeWhile

/-!
# The path of an object file

An object file without a path of its own lies beside its source, under the name of the source with
the extension of the format. The two are different files, and the source stays as it was, unless its
name has this extension already: then the object file takes the place of its source.
-/

namespace SicXe.Path

variable {separator : Char} {cs name extension : List Char}

/-! ### The last separator -/

/-- Characters with a separator among them have a last one. -/
theorem exists_last (h : separator ∈ cs) :
    ∃ before rest, cs = before ++ separator :: rest ∧ separator ∉ rest := by
  obtain ⟨rest, before, hcs, hrest⟩ := List.eq_append_cons_of_mem (List.mem_reverse.mpr h)
  refine ⟨before.reverse, rest.reverse, ?_, by simpa using hrest⟩
  rw [← List.reverse_reverse cs, hcs]
  simp

/-- The last separator is the one that none follows. -/
theorem throughLast_append (before : List Char) (h : separator ∉ name) :
    throughLast separator (before ++ separator :: name) = before ++ [separator] := by
  have hname : ∀ c ∈ name.reverse, (c != separator) = true := by
    intro c hc
    rw [bne_iff_ne]
    rintro rfl
    exact h (List.mem_reverse.mp hc)
  rw [throughLast, List.reverse_append, List.reverse_cons, List.append_assoc,
    List.dropWhile_append_of_pos hname]
  simp

/-- What follows the last separator. -/
theorem afterLast_append (before : List Char) (h : separator ∉ name) :
    afterLast separator (before ++ separator :: name) = name := by
  have hparts := throughLast_append_afterLast separator (before ++ separator :: name)
  rw [throughLast_append before h, List.append_assoc] at hparts
  simpa using hparts

/-- Characters without a separator have nothing up to it. -/
theorem throughLast_of_not_mem (h : separator ∉ name) : throughLast separator name = [] := by
  rw [throughLast, List.reverse_eq_nil_iff, List.dropWhile_eq_nil_iff]
  intro c hc
  rw [bne_iff_ne]
  rintro rfl
  exact h (List.mem_reverse.mp hc)

/-- Characters without a separator all follow it. -/
theorem afterLast_of_not_mem (h : separator ∉ name) : afterLast separator name = name := by
  have hparts := throughLast_append_afterLast separator name
  rwa [throughLast_of_not_mem h] at hparts

/-- What follows the last separator holds none. -/
theorem not_mem_afterLast (separator : Char) (cs : List Char) :
    separator ∉ afterLast separator cs := by
  by_cases h : separator ∈ cs
  · obtain ⟨before, rest, rfl, hrest⟩ := exists_last h
    rwa [afterLast_append before hrest]
  · rwa [afterLast_of_not_mem h]

/-! ### Names -/

theorem splitNames_ne_nil (cs : List Char) : splitNames cs ≠ [] := by
  cases cs with
  | nil => simp [splitNames]
  | cons c cs =>
    rw [splitNames]
    split
    · simp
    · split <;> simp

/-- A slash stands between two names. -/
theorem splitNames_append (before rest : List Char) :
    splitNames (before ++ '/' :: rest) = splitNames before ++ splitNames rest := by
  induction before with
  | nil => rfl
  | cons c before ih =>
    by_cases hc : c = '/'
    · simp only [List.cons_append, splitNames, hc, ↓reduceIte, ih]
    · simp only [List.cons_append, splitNames, hc, ↓reduceIte, ih]
      cases hn : splitNames before with
      | nil => exact absurd hn (splitNames_ne_nil before)
      | cons name others => rfl

/-- Characters without a slash are one name. -/
theorem splitNames_of_not_mem (h : '/' ∉ name) : splitNames name = [name] := by
  induction name with
  | nil => rfl
  | cons c name ih =>
    rw [List.mem_cons, not_or] at h
    obtain ⟨hc, hname⟩ := h
    simp only [splitNames, Ne.symm hc, ↓reduceIte, ih hname]

/-- The last name of a path follows its last slash. -/
theorem getLast?_names (path : String) :
    (names path).getLast? = some (String.ofList (afterLast '/' path.toList)) := by
  rw [names, List.getLast?_map]
  by_cases h : '/' ∈ path.toList
  · obtain ⟨before, rest, hpath, hrest⟩ := exists_last h
    rw [hpath, afterLast_append before hrest, splitNames_append, splitNames_of_not_mem hrest,
      List.getLast?_concat, Option.map_some]
  · rw [splitNames_of_not_mem h, afterLast_of_not_mem h]
    rfl

/-- A name in the directory of a path. -/
theorem afterLast_throughLast_append (cs : List Char) (h : separator ∉ name) :
    afterLast separator (throughLast separator cs ++ name) = name := by
  by_cases hcs : separator ∈ cs
  · obtain ⟨before, rest, rfl, hrest⟩ := exists_last hcs
    rw [throughLast_append before hrest, List.append_assoc]
    exact afterLast_append before h
  · rw [throughLast_of_not_mem hcs]
    exact afterLast_of_not_mem h

/-! ### Extensions -/

/-- A file name with its extension replaced. -/
def renamed (name extension : List Char) : List Char :=
  if openName name = ['.', '.'] then openName name else stem name ++ '.' :: extension

/-- Replacing the extension of a path replaces that of its file name. -/
theorem withExtension_eq (path extension : String) :
    withExtension path extension =
      String.ofList (throughLast '/' path.toList ++
        renamed (afterLast '/' path.toList) extension.toList) := by
  simp only [withExtension, renamed]
  split
  · rfl
  · rw [List.append_assoc]

/-- A name with something before its last dot is a stem and an extension. -/
theorem stem_append {before : List Char} (hb : before ≠ []) (h : '.' ∉ extension) :
    stem (before ++ '.' :: extension) = before ∧
      openName (before ++ '.' :: extension) = before ++ ['.'] := by
  rw [stem, openName, throughLast_append before h, List.dropLast_concat]
  cases before with
  | nil => exact absurd rfl hb
  | cons c before => exact ⟨rfl, rfl⟩

/-- A name is a stem and an extension, or it has no extension and is a stem alone. -/
theorem stem_cases (name : List Char) :
    (∃ before extension, before ≠ [] ∧ '.' ∉ extension ∧ name = before ++ '.' :: extension) ∨
      stem name = name ∧ openName name = name := by
  by_cases h : '.' ∈ name
  · obtain ⟨before, extension, rfl, hextension⟩ := exists_last h
    by_cases hb : before = []
    · right
      rw [stem, openName, throughLast_append before hextension, hb]
      exact ⟨rfl, rfl⟩
    · exact .inl ⟨before, extension, hb, hextension, rfl⟩
  · right
    rw [stem, openName, throughLast_of_not_mem h]
    exact ⟨rfl, rfl⟩

/-- A name with its extension replaced holds no slash. -/
theorem not_mem_renamed (hname : '/' ∉ name) (h : '/' ∉ extension) :
    '/' ∉ renamed name extension := by
  rw [renamed]
  rcases stem_cases name with ⟨before, old, hb, hold, rfl⟩ | ⟨hstem, hopen⟩
  · obtain ⟨hstem, hopen⟩ := stem_append hb hold
    rw [hstem, hopen]
    simp only [List.mem_append, List.mem_cons, not_or] at hname
    split <;> simp [hname.1, h]
  · rw [hstem, hopen]
    split <;> simp [hname, h]

/-- A name stays as it is when its extension is replaced by the one it has. A dot alone is no stem,
since two dots stand for a directory. -/
theorem renamed_eq_self_iff (h : '.' ∉ extension) :
    renamed name extension = name ↔
      name = ['.', '.'] ∨
        ∃ before, before ≠ [] ∧ before ≠ ['.'] ∧ name = before ++ '.' :: extension := by
  constructor
  · intro hself
    rw [renamed] at hself
    split at hself
    · next hdots => exact .inl (hself.symm.trans hdots)
    · next hdots =>
      right
      rcases stem_cases name with ⟨before, old, hb, hold, rfl⟩ | ⟨hstem, -⟩
      · obtain ⟨hstem, hopen⟩ := stem_append hb hold
        rw [hstem] at hself
        refine ⟨before, hb, ?_, hself.symm⟩
        rintro rfl
        exact hdots hopen
      · -- a name without an extension grows by one
        rw [hstem] at hself
        simp at hself
  · rintro (rfl | ⟨before, hb, hdot, rfl⟩)
    · rfl
    · obtain ⟨hstem, hopen⟩ := stem_append hb h
      rw [renamed, hstem, hopen, if_neg]
      intro hdots
      exact hdot (List.append_cancel_right (hdots.trans (List.singleton_append.symm)))

/-- A path whose file name is a stem with an extension after it. The stem has no slash, and is
neither empty nor a dot. -/
def HasExtension (path extension : String) : Prop :=
  ∃ directory stem, path.toList = directory ++ stem ++ '.' :: extension.toList ∧
    (directory = [] ∨ ∃ above, directory = above ++ ['/']) ∧
    '/' ∉ stem ∧ stem ≠ [] ∧ stem ≠ ['.']

/-- An extension stands at the end of the last name of a path. -/
theorem hasExtension_iff {path extension : String} (h : '/' ∉ extension.toList) :
    HasExtension path extension ↔ ∃ stem, stem ≠ [] ∧ stem ≠ ['.'] ∧
      afterLast '/' path.toList = stem ++ '.' :: extension.toList := by
  constructor
  · rintro ⟨directory, stem, hpath, hdirectory, hslash, hne, hdot⟩
    have hname : '/' ∉ stem ++ '.' :: extension.toList := by simp [hslash, h]
    refine ⟨stem, hne, hdot, ?_⟩
    rw [hpath, List.append_assoc]
    rcases hdirectory with rfl | ⟨above, rfl⟩
    · exact afterLast_of_not_mem hname
    · rw [List.append_assoc]
      exact afterLast_append above hname
  · rintro ⟨stem, hne, hdot, hname⟩
    have hslash := not_mem_afterLast '/' path.toList
    rw [hname, List.mem_append, not_or] at hslash
    refine ⟨throughLast '/' path.toList, stem, ?_, ?_, hslash.1, hne, hdot⟩
    · rw [List.append_assoc, ← hname, throughLast_append_afterLast]
    · by_cases hpath : '/' ∈ path.toList
      · obtain ⟨before, rest, hpath, hrest⟩ := exists_last hpath
        rw [hpath, throughLast_append before hrest]
        exact .inr ⟨before, rfl⟩
      · exact .inl (throughLast_of_not_mem hpath)

variable {path extension : String}

/-- The last name of a path with its extension replaced. -/
theorem afterLast_withExtension (h : '/' ∉ extension.toList) :
    afterLast '/' (withExtension path extension).toList =
      renamed (afterLast '/' path.toList) extension.toList := by
  rw [withExtension_eq, String.toList_ofList]
  apply afterLast_throughLast_append
  exact not_mem_renamed (not_mem_afterLast '/' path.toList) h

/-- A path stays as it is when its extension is replaced by the one it has. -/
theorem withExtension_of_hasExtension (hslash : '/' ∉ extension.toList)
    (hdot : '.' ∉ extension.toList) (h : HasExtension path extension) :
    withExtension path extension = path := by
  have hname := (renamed_eq_self_iff hdot).mpr (.inr ((hasExtension_iff hslash).mp h))
  rw [withExtension_eq, hname, throughLast_append_afterLast, String.ofList_toList]

/-- A path of a file gets another last name with an extension that it does not have. -/
theorem getLast?_names_withExtension_ne (hslash : '/' ∉ extension.toList)
    (hdot : '.' ∉ extension.toList) (h : ¬ HasExtension path extension)
    (hfile : (names path).getLast? ≠ some "..") :
    (names (withExtension path extension)).getLast? ≠ (names path).getLast? := by
  rw [getLast?_names] at hfile
  rw [getLast?_names, getLast?_names, afterLast_withExtension hslash]
  intro hsame
  have hname := String.ofList_inj.mp (Option.some.inj hsame)
  rcases (renamed_eq_self_iff hdot).mp hname with hdots | hextension
  · exact hfile (by rw [hdots])
  · exact h ((hasExtension_iff hslash).mpr hextension)

end SicXe.Path

namespace SicXe.Store

variable {store : Store} {location : List String} {path other text : String}

/-- A path can be read when it ends in the name of a file that has a text. -/
theorem read_eq_ok_iff :
    store.read path = .ok text ↔
      ∃ directory last, store.resolve (Path.names path) = .ok (directory, last) ∧
        namesDirectory last = false ∧ store.text? (directory ++ [last]) = some text := by
  unfold read
  cases store.resolve (Path.names path) with
  | error e => simp
  | ok pair =>
    obtain ⟨directory, last⟩ := pair
    simp only [Except.ok.injEq, Prod.mk.injEq, exists_and_left, exists_eq_left', and_assoc]
    split
    · next hname => simp [hname]
    · next hname =>
      cases store.text? (directory ++ [last]) with
      | none =>
        dsimp only
        split <;> simp
      | some found => simp [hname]

/-- Names lead where they led before a file was put into a directory. -/
theorem resolve_put {names : List String} {found : List String × String}
    (hl : store.location? path = some location) (h : store.resolve names = .ok found) :
    (store.put location text).resolve names = .ok found := by
  apply resolve_of_sameDirectories _ (directories_put store location text).2 h
  intro l
  exact isDirectory_put (isDirectory_of_location? hl)

/-- The location of a path ends in its last name. -/
theorem getLast?_of_location? (h : store.location? path = some location) :
    location.getLast? = (Path.names path).getLast? := by
  obtain ⟨directory, last, hr, -, -, rfl⟩ := location?_eq_some_iff.mp h
  obtain ⟨-, hlast, -⟩ := resolve_eq_ok_iff.mp hr
  rw [hlast, List.getLast?_concat]

/-- A file is not touched by what is written under another last name. -/
theorem read_put_of_ne {new : String} (hl : store.location? path = some location)
    (hread : store.read other = .ok text)
    (hne : (Path.names path).getLast? ≠ (Path.names other).getLast?) :
    (store.put location new).read other = .ok text := by
  obtain ⟨directory, last, hr, hname, ht⟩ := read_eq_ok_iff.mp hread
  have hdiffer : directory ++ [last] ≠ location := by
    rintro rfl
    obtain ⟨-, hlast, -⟩ := resolve_eq_ok_iff.mp hr
    rw [← getLast?_of_location? hl, hlast, List.getLast?_concat] at hne
    exact hne rfl
  exact read_eq_ok_iff.mpr ⟨directory, last, resolve_put hl hr, hname,
    by rw [text?_put_of_ne hdiffer, ht]⟩

/-- A path that denotes a file does not end in the name of the directory above. -/
theorem getLast?_ne_parent {directory : List String} {last : String}
    (hr : store.resolve (Path.names path) = .ok (directory, last))
    (hname : namesDirectory last = false) : (Path.names path).getLast? ≠ some parent := by
  obtain ⟨-, hlast, -⟩ := resolve_eq_ok_iff.mp hr
  rw [hlast]
  intro hparent
  rw [Option.some.inj hparent] at hname
  cases hname

end SicXe.Store

namespace SicXe.CommandLine

/-- The extension of a format is a name without slashes and dots. -/
theorem Format.not_mem_extension (format : Format) :
    '/' ∉ format.extension.toList ∧ '.' ∉ format.extension.toList := by
  cases format <;> decide

/-- Without a path of its own the object file stands beside its source. -/
theorem path_productOf {request : AssembleRequest} (format : Format) (assembly : Assembly)
    (session : Session) (ho : request.output = none) :
    (productOf request format assembly session).path =
      Path.withExtension request.input format.extension := by
  simp only [productOf, ho, Option.getD_none]

/-- A delivery without a listing writes the object file if its path denotes a location, and nothing
otherwise. -/
theorem deliver_of_no_listing {request : AssembleRequest} (world : World) (product : Product)
    (hi : request.intermediate = none) :
    (world.store.location? product.path = none ∧
      (deliver Observed.host request product { world }).2.world.store = world.store) ∨
    ∃ location, world.store.location? product.path = some location ∧
      (deliver Observed.host request product { world }).1 = 0 ∧
      (deliver Observed.host request product { world }).2.world.store =
        world.store.put location product.contents := by
  cases hl : world.store.location? product.path with
  | none =>
    left
    cases hw : world.store.write product.path product.contents with
    | ok after =>
      obtain ⟨location, hlocation, -⟩ := Store.write_eq_ok_iff.mp hw
      rw [hl] at hlocation
      cases hlocation
    | error e =>
      have herror : (world.write product.path product.contents) = (.error e, world) := by
        rw [World.write, hw]
      refine ⟨rfl, ?_⟩
      rw [deliver_of_error _ _ { world } (congrArg Prod.fst herror)]
      simp only [Observed.complain, Observed.tried, herror]
  | some location =>
    right
    refine ⟨location, rfl, ?_⟩
    have hw : world.store.write product.path product.contents =
        .ok (world.store.put location product.contents) :=
      Store.write_eq_ok_iff.mpr ⟨location, hl, rfl⟩
    have hok : world.write product.path product.contents =
        (.ok (), { world with store := world.store.put location product.contents }) := by
      rw [World.write, hw]
    rw [deliver_of_ok _ _ { world } (congrArg Prod.fst hok), hi, writeListing_none]
    simp only [Product.afterObject, Observed.say, Observed.tried, hok, and_self]

/-- The object file has another last name than its source, which is a file, unless the source has
the extension of the format. -/
theorem getLast?_names_ne {store : Store} {directory : List String} {input last : String}
    {format : Format} (hr : store.resolve (Path.names input) = .ok (directory, last))
    (hname : Store.namesDirectory last = false)
    (h : ¬ Path.HasExtension input format.extension) :
    (Path.names (Path.withExtension input format.extension)).getLast? ≠
      (Path.names input).getLast? := by
  obtain ⟨hslash, hdot⟩ := format.not_mem_extension
  exact Path.getLast?_names_withExtension_ne hslash hdot h (Store.getLast?_ne_parent hr hname)

/-- The object file goes to another location than its source. -/
theorem location?_ne_of_not_hasExtension {store : Store} {input : String} {format : Format}
    (h : ¬ Path.HasExtension input format.extension) {location : List String}
    (hl : store.location? input = some location) :
    store.location? (Path.withExtension input format.extension) ≠ some location := by
  intro hsame
  obtain ⟨directory, last, hr, hname, -, -⟩ := Store.location?_eq_some_iff.mp hl
  apply getLast?_names_ne hr hname h
  rw [← Store.getLast?_of_location? hl, ← Store.getLast?_of_location? hsame]

section

variable {world : World} {words : List String} {invocation : Invocation}
  {request : AssembleRequest}
  (h : Invocation.parse words = .ok invocation) (hr : invocation.reference = false)
  (hc : invocation.command = some (.assemble request))
  (ho : request.output = none) (hi : request.intermediate = none)

include h hr hc ho hi

/-- A source without the extension of the format is read after the run as it was before. -/
theorem read_source_of_not_hasExtension
    (hextension : ∀ format, Format.ofName? request.format = some format →
      ¬ Path.HasExtension request.input format.extension) :
    (runIn world words).2.store.read request.input = world.store.read request.input := by
  rw [runIn_eq]
  by_cases hb : Blocked world.store invocation.table request
  · obtain ⟨text, hobserve⟩ := observe_of_blocked h hr hc hb
    rw [hobserve]
    rfl
  · obtain ⟨session, source, assembly, format, after, -, hread, -, hf, hobserve⟩ :=
      observe_of_not_blocked h hr hc hb
    rw [hobserve, hread]
    rcases deliver_of_no_listing world (productOf request format assembly after) hi with
      ⟨-, hstore⟩ | ⟨location, hl, -, hstore⟩
    · rw [hstore, hread]
    · obtain ⟨directory, last, hresolve, hname, -⟩ := Store.read_eq_ok_iff.mp hread
      rw [hstore]
      apply Store.read_put_of_ne hl hread
      rw [path_productOf format assembly after ho]
      exact getLast?_names_ne hresolve hname (hextension format hf)

/-- A source with the extension of the format is replaced by the object file. -/
theorem read_source_of_hasExtension {format : Format} {session : Session} {source : String}
    {assembly : Assembly} {location : List String}
    (hf : Format.ofName? request.format = some format)
    (hextension : Path.HasExtension request.input format.extension)
    (hload : load world.store invocation.table = .ok session)
    (hread : world.store.read request.input = .ok source)
    (ha : (session.assemble source).1 = .ok assembly)
    (hl : world.store.location? request.input = some location) :
    (runIn world words).1 = 0 ∧
      (runIn world words).2.store.read request.input = .ok (format.contents assembly) := by
  obtain ⟨hslash, hdot⟩ := format.not_mem_extension
  obtain ⟨after, hassemble⟩ := assemble_of_assembled request hread ha
  rw [hf] at hassemble
  have hpath : (productOf request format assembly after).path = request.input := by
    rw [path_productOf format assembly after ho]
    exact Path.withExtension_of_hasExtension hslash hdot hextension
  rw [runIn_eq, observe_of_load h hr hc hload, hassemble]
  rcases deliver_of_no_listing world (productOf request format assembly after) hi with
    ⟨hnone, -⟩ | ⟨written, hwritten, hcode, hstore⟩
  · rw [hpath, hl] at hnone
    cases hnone
  · rw [hpath] at hwritten
    refine ⟨hcode, ?_⟩
    rw [hstore]
    apply Store.read_of_location?
    · rw [Store.location?_put hwritten, hwritten]
    · exact Store.text?_put_self _ _ _

end

/-- The extension of the object files of a format. -/
def IsExtension (format extension : String) : Prop :=
  format = "text" ∧ extension = "obj" ∨ format = "json" ∧ extension = "json"

/-- The formats that have an extension are those that are known. -/
theorem isExtension_iff {name extension : String} :
    IsExtension name extension ↔
      ∃ format, Format.ofName? name = some format ∧ extension = format.extension := by
  constructor
  · rintro (⟨rfl, rfl⟩ | ⟨rfl, rfl⟩)
    · exact ⟨.text, rfl, rfl⟩
    · exact ⟨.json, rfl, rfl⟩
  · rintro ⟨format, hf, rfl⟩
    rcases Format.isObjectFile hf ⟨[], [], []⟩ with ⟨hname, hextension, -⟩ | ⟨hname, hextension, -⟩
    · exact .inl ⟨hname, hextension⟩
    · exact .inr ⟨hname, hextension⟩

/-- An assembly that is given no paths for its files leaves its source as it was, and its object
file goes to another location, unless the source has the extension of the format. If it has, the
path of the object file is the path of the source, and an assembly that succeeds puts the object
file in the place of its source. This holds of paths from the root and from the working directory. -/
theorem source_kept_unless_extension {world : World} {words : List String}
    {invocation : Invocation} {request : AssembleRequest}
    (h : Invocation.parse words = .ok invocation) (hr : invocation.reference = false)
    (hc : invocation.command = some (.assemble request))
    (ho : request.output = none) (hi : request.intermediate = none) :
    ((∀ extension, IsExtension request.format extension →
        ¬ Path.HasExtension request.input extension) →
      (runIn world words).2.store.read request.input = world.store.read request.input) ∧
    ∀ extension, IsExtension request.format extension →
      (¬ Path.HasExtension request.input extension →
        ∀ location, world.store.location? request.input = some location →
          world.store.location? (Path.withExtension request.input extension) ≠ some location) ∧
      (Path.HasExtension request.input extension →
        Path.withExtension request.input extension = request.input ∧
        ∀ session source assembly location,
          load world.store invocation.table = .ok session →
          world.store.read request.input = .ok source →
          (session.assemble source).1 = .ok assembly →
          world.store.location? request.input = some location →
          (runIn world words).1 = 0 ∧
            ∃ contents, IsObjectFile assembly request.format extension contents ∧
              (runIn world words).2.store.read request.input = .ok contents) := by
  constructor
  · intro hextension
    apply read_source_of_not_hasExtension h hr hc ho hi
    intro format hf
    exact hextension _ (isExtension_iff.mpr ⟨format, hf, rfl⟩)
  · intro extension hknown
    obtain ⟨format, hf, rfl⟩ := isExtension_iff.mp hknown
    refine ⟨fun hextension location ↦ location?_ne_of_not_hasExtension hextension, ?_⟩
    intro hextension
    obtain ⟨hslash, hdot⟩ := format.not_mem_extension
    refine ⟨Path.withExtension_of_hasExtension hslash hdot hextension, ?_⟩
    intro session source assembly location hload hread ha hl
    obtain ⟨hcode, hreplaced⟩ :=
      read_source_of_hasExtension h hr hc ho hi hf hextension hload hread ha hl
    exact ⟨hcode, _, Format.isObjectFile hf assembly, hreplaced⟩

/-- A working directory with two sources, one of them under the name of an object file. -/
def namedWorld : World where
  store := .ofPaths [("p.asm", "P START 16\nA WORD 1\nEND"), ("q.obj", "Q START 16\nA WORD 2\nEND")]

/-- What is assembled from the second source. -/
def namedAssembly : Assembly where
  listing := [.start "Q" 16, .body 16 (.word 2)]
  symbols := [⟨"A", 16⟩]
  records := [.header "Q" 16 3, .text "000010" 3 "000002", .finish 16]

/-- The source with an extension of its own is kept, the other one becomes an object file; both are
given by their paths from the root. -/
theorem source_kept_unless_extension_sample :
    (runIn namedWorld ["assemble", "/work/p.asm"]).2.store.read "/work/p.asm" =
        .ok "P START 16\nA WORD 1\nEND" ∧
      namedWorld.store.location? "/work/p.obj" ≠ some ["work", "p.asm"] ∧
      (runIn namedWorld ["assemble", "/work/q.obj"]).1 = 0 ∧
      (runIn namedWorld ["assemble", "/work/q.obj"]).2.store.read "/work/q.obj" =
        .ok "H Q 000010 000003\nT 000010 03 000002\nE 000010\n" := by
  have hplain : Invocation.parse ["assemble", "/work/p.asm"] =
      .ok ⟨false, none, some (.assemble ⟨"/work/p.asm", none, "text", none, false⟩)⟩ := by
    decide +kernel
  have hobject : Invocation.parse ["assemble", "/work/q.obj"] =
      .ok ⟨false, none, some (.assemble ⟨"/work/q.obj", none, "text", none, false⟩)⟩ := by
    decide +kernel
  have hother : ¬ Path.HasExtension "/work/p.asm" "obj" := by
    rintro ⟨directory, stem, hpath, -⟩
    have hlast := congrArg List.getLast? hpath
    simp at hlast
  have hsame : Path.HasExtension "/work/q.obj" "obj" :=
    ⟨"/work/".toList, ['q'], by decide, .inr ⟨"/work".toList, by decide⟩, by decide, by decide,
      by decide⟩
  have hformat : ∀ extension, IsExtension "text" extension →
      ¬ Path.HasExtension "/work/p.asm" extension := by
    rintro extension (⟨-, rfl⟩ | ⟨hjson, -⟩)
    · exact hother
    · exact absurd hjson (by decide)
  have hkeptSource : namedWorld.store.read "/work/p.asm" = .ok "P START 16\nA WORD 1\nEND" := by
    decide +kernel
  have hlostSource : namedWorld.store.read "/work/q.obj" = .ok "Q START 16\nA WORD 2\nEND" := by
    decide +kernel
  have hassembles : ((Session.start {}).assemble "Q START 16\nA WORD 2\nEND").1 =
      .ok namedAssembly := by
    decide +kernel
  obtain ⟨hkept, hbeside⟩ := @source_kept_unless_extension namedWorld _ _ _ hplain rfl rfl rfl rfl
  obtain ⟨-, hformats⟩ := @source_kept_unless_extension namedWorld _ _ _ hobject rfl rfl rfl rfl
  obtain ⟨-, hreplaced⟩ := (hformats "obj" (.inl ⟨rfl, rfl⟩)).2 hsame
  obtain ⟨hcode, contents, hcontents, hread⟩ :=
    hreplaced (.start {}) _ namedAssembly ["work", "q.obj"] rfl hlostSource hassembles
      (by decide +kernel)
  obtain ⟨-, -, rfl⟩ := hcontents.resolve_right fun hjson ↦ absurd hjson.1 (by decide)
  refine ⟨(hkept hformat).trans hkeptSource, ?_, hcode, hread.trans (by decide +kernel)⟩
  have hpath : Path.withExtension "/work/p.asm" "obj" = "/work/p.obj" := by decide +kernel
  rw [← hpath]
  exact (hbeside "obj" (.inl ⟨rfl, rfl⟩)).1 hother _ (by decide +kernel)

/-- A source under the name of an object file is lost, though its assembly ends well. -/
theorem source_named_as_object_replaced :
    (runIn namedWorld ["assemble", "q.obj"]).1 = 0 ∧
      namedWorld.store.read "q.obj" = .ok "Q START 16\nA WORD 2\nEND" ∧
      (runIn namedWorld ["assemble", "q.obj"]).2.store.read "q.obj" =
        .ok "H Q 000010 000003\nT 000010 03 000002\nE 000010\n" := by
  decide +kernel

end SicXe.CommandLine
