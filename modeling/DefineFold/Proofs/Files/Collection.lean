/-
  DefineFold.Proofs.Files.Collection

  Which files a scan finds. What a walk comes to that turns back at entries that are not kept can be
  read off the names on the way there: no name is hidden, and no name of a directory is that of
  others' packages (`comesTo_isKept_iff`).

  Main statement: on a faithful walk from a directory, a scan succeeds exactly if the walk meets no
  error, and then it lists the files that are shown and written in a known language, in the order
  of their paths (`collectSources_eq_ok_iff`). What the directory itself is called does not matter.
  The walk through a file system meets no error exactly if no directory that is shown has too long
  a path (`walk_succeeds_iff_shows`).
-/

import DefineFold.Proofs.Files.Sources

namespace DefineFold

/-! ## Names on the way -/

/-- Whether a name is hidden. -/
def IsHidden (name : String) : Prop :=
  name.toList.head? = some '.'

theorem isKept_child_iff {path name : String} {depth : Nat} {e : Entry} :
    isKept (.child path depth name e) = true ↔
      ¬ IsHidden name ∧ (e.isDirectory = true → name ∉ excludedDirectories) := by
  have hname : (Visit.child path depth name e).name = name := rfl
  rw [isKept, if_neg (by simp), hname, IsHidden, ← Entry.fileType_eq_directory_iff]
  split
  · rename_i hhidden
    simp [hhidden]
  · rename_i hvisible
    simp [hvisible, imp_iff_not_or]

/-- The names that stand for directories on the way to an entry: all but its own, unless it is a
    directory itself. -/
def directoryNames (names : List String) (found : Entry) : List String :=
  if found.isDirectory then names else names.dropLast

namespace Entry

/-- An entry lies under names of which none is hidden, and the directories on the way to it are not
    those of others' packages. -/
structure Shows (top : Entry) (names : List String) (found : Entry) : Prop where
  leads : top.at? names = some found
  visible : ∀ name ∈ names, ¬ IsHidden name
  outside : ∀ name ∈ directoryNames names found, name ∉ excludedDirectories

theorem directoryNames_cons {e found : Entry} {names : List String} (h : e.at? names = some found)
    (name : String) :
    directoryNames (name :: names) found =
      if e.isDirectory then name :: directoryNames names found else directoryNames names found := by
  cases names with
  | nil =>
    -- The name is that of the entry itself, which may be no directory.
    obtain rfl := Option.some.inj h
    rw [directoryNames, directoryNames]
    split <;> rfl
  | cons next names =>
    obtain ⟨entries, -, rfl, -⟩ := exists_directory_of_at?_cons h
    rw [directoryNames, directoryNames]
    split <;> rfl

theorem shows_nil (e : Entry) : e.Shows [] e := by
  refine ⟨rfl, nofun, ?_⟩
  simp [directoryNames]

/-- One name more on the way: what it stands for must be kept. -/
theorem shows_cons_iff {top found : Entry} {name : String} {names : List String} (path : String)
    (depth : Nat) :
    top.Shows (name :: names) found ↔
      ∃ e, top.child? name = some e ∧ isKept (.child path depth name e) = true ∧
        e.Shows names found := by
  simp only [isKept_child_iff]
  constructor
  · rintro ⟨hleads, hvisible, houtside⟩
    obtain ⟨-, e, -, hchild, he⟩ := exists_directory_of_at?_cons hleads
    rw [directoryNames_cons he] at houtside
    rw [List.forall_mem_cons] at hvisible
    refine ⟨e, hchild, ⟨hvisible.1, ?_⟩, he, hvisible.2, ?_⟩
    · intro hdirectory
      rw [if_pos hdirectory] at houtside
      exact houtside name List.mem_cons_self
    · split at houtside
      · exact fun other hother => houtside other (List.mem_cons_of_mem _ hother)
      · exact houtside
  · rintro ⟨e, hchild, ⟨hname, hincluded⟩, he, hvisible, houtside⟩
    refine ⟨?_, List.forall_mem_cons.mpr ⟨hname, hvisible⟩, ?_⟩
    · rw [at?, hchild]
      exact he
    · rw [directoryNames_cons he]
      split
      · rename_i hdirectory
        exact List.forall_mem_cons.mpr ⟨hincluded hdirectory, houtside⟩
      · exact houtside

end Entry

/-- Turning back on the way comes to the same as looking at the names of each path. -/
theorem comesTo_isKept_iff {path : String} {depth : Nat} {top : Entry} {v : Visit}
    (hregular : top.isRegular = true) :
    ComesTo isKept path depth top v ↔
      ∃ names found, names ≠ [] ∧ top.Shows names found ∧ v = .under path depth names found := by
  constructor
  · intro h
    induction h with
    | @here path depth entries name e hmem hkept =>
      have hchild := (Entry.child?_eq_some_iff hregular).mpr hmem
      have hshows := (Entry.shows_cons_iff path depth).mpr ⟨e, hchild, hkept, e.shows_nil⟩
      exact ⟨[name], e, List.cons_ne_nil _ _, hshows, rfl⟩
    | @down path depth entries name e v hmem hkept _ ih =>
      have hchild := (Entry.child?_eq_some_iff hregular).mpr hmem
      obtain ⟨names, found, hne, hbelow, rfl⟩ := ih (Entry.isRegular_of_child? hregular hchild)
      have hshows := (Entry.shows_cons_iff path depth).mpr ⟨e, hchild, hkept, hbelow⟩
      exact ⟨name :: names, found, List.cons_ne_nil _ _, hshows, Visit.under_join hne ..⟩
  · rintro ⟨names, found, hne, hshows, rfl⟩
    induction names generalizing path depth top with
    | nil => exact absurd rfl hne
    | cons name names ih =>
      obtain ⟨e, hchild, hkept, hbelow⟩ := (Entry.shows_cons_iff path depth).mp hshows
      obtain ⟨entries, _, rfl, -, -⟩ := Entry.exists_directory_of_at?_cons hshows.leads
      have hmem := (Entry.child?_eq_some_iff hregular).mp hchild
      cases names with
      | nil =>
        obtain rfl := Option.some.inj hbelow.leads
        exact .here hmem hkept
      | cons next names =>
        have hregular' := Entry.isRegular_of_child? hregular hchild
        rw [← Visit.under_join (List.cons_ne_nil next names)]
        exact .down hmem hkept (ih hregular' (List.cons_ne_nil _ _) hbelow)

/-! ## The sources below a directory -/

section

variable {top found : Entry} {names : List String}

theorem Entry.Shows.isSegment (h : top.Shows names found) (hregular : top.isRegular = true) :
    ∀ name ∈ names, FilePath.IsSegment name :=
  fun name hname => (Entry.isRegularName_of_at? hregular h.leads name hname).1

theorem Entry.Shows.below_iff (h : top.Shows names found) (hregular : top.isRegular = true)
    (hne : names ≠ []) {root path : String} :
    FilePath.Below root names path ↔ path = names.foldl FilePath.join root := by
  have hnames := h.isSegment hregular
  constructor
  · intro hbelow
    exact hbelow.eq_foldl_join hne hnames
  · rintro rfl
    exact FilePath.below_foldl_join hne hnames root

end

section

variable {entries : List (String × Entry)} (htop : (Entry.directory entries).isRegular = true)
  {walk : Walk} {fs : FileSystem} {root : String} (hwalk : walk.Faithful fs isKept root)
  (hclean : walk.Succeeds fs isKept root)
  (hroot : fs.entry .follow root = .ok (.directory entries))

theorem Entry.Shows.ne_nil {names : List String} {text : Option String}
    (h : (Entry.directory entries).Shows names (.file text)) : names ≠ [] := by
  rintro rfl
  exact nomatch h.leads

include htop hwalk hclean hroot

/-- The files that a walk finds are those that are shown. -/
theorem mem_foundBy_iff_shows (path : String) :
    path ∈ foundBy walk fs root ↔
      ∃ names text, (Entry.directory entries).Shows names (.file text) ∧
        FilePath.Below root names path ∧ (Language.ofPath? path).isSome = true := by
  rw [mem_foundBy_iff hwalk hclean hroot]
  simp only [isSource_iff, comesTo_isKept_iff htop]
  constructor
  · rintro ⟨v, ⟨names, found, hne, hshows, rfl⟩, ⟨hfile, hlanguage⟩, rfl⟩
    obtain ⟨text, rfl⟩ := Entry.fileType_eq_file_iff.mp hfile
    exact ⟨names, text, hshows, (hshows.below_iff htop hne).mpr rfl, hlanguage⟩
  · rintro ⟨names, text, hshows, hbelow, hlanguage⟩
    obtain rfl := (hshows.below_iff htop hshows.ne_nil).mp hbelow
    exact ⟨.under root 0 names (.file text), ⟨names, _, hshows.ne_nil, hshows, rfl⟩,
      ⟨rfl, hlanguage⟩, rfl⟩

theorem increasing_sort_foundBy :
    FilePath.Increasing (FilePath.sort (foundBy walk fs root)) := by
  obtain ⟨place, hplace, -⟩ := FileSystem.locate_of_entry hroot
  have hne : root ≠ "" := (FileSystem.locate_eq_ok hplace).1.2.1
  apply FilePath.increasing_sort (nodup_foundBy hwalk hclean hroot htop)
  intro path hpath path' hpath' heq
  rw [mem_foundBy_iff_shows htop hwalk hclean hroot] at hpath hpath'
  obtain ⟨names, text, hshows, hbelow, -⟩ := hpath
  obtain ⟨names', text', hshows', hbelow', -⟩ := hpath'
  exact hbelow.eq_of_orderKey_eq hne hbelow' (hshows.isSegment htop) (hshows'.isSegment htop) heq

end

/-- The sources that are found below a directory on a faithful walk, and when they are. -/
theorem collectSources_eq_ok_iff {walk : Walk} {fs : FileSystem} {root : String}
    {entries : List (String × Entry)} (hwalk : walk.Faithful fs isKept root)
    (hroot : fs.entry .follow root = .ok (.directory entries))
    (htop : (Entry.directory entries).isRegular = true) (paths : List String) :
    collectSources walk fs root = .ok paths ↔
      walk.Succeeds fs isKept root ∧ FilePath.Increasing paths ∧
      ∀ path, path ∈ paths ↔ ∃ names text, (Entry.directory entries).Shows names (.file text) ∧
        FilePath.Below root names path ∧ (Language.ofPath? path).isSome = true := by
  rw [collectSources_eq_sort_iff]
  refine and_congr_right fun hclean => ?_
  have hincreasing := increasing_sort_foundBy htop hwalk hclean hroot
  have hmem : ∀ path, path ∈ FilePath.sort (foundBy walk fs root) ↔
      ∃ names text, (Entry.directory entries).Shows names (.file text) ∧
        FilePath.Below root names path ∧ (Language.ofPath? path).isSome = true := by
    intro path
    rw [(FilePath.sort_perm _).mem_iff]
    exact mem_foundBy_iff_shows htop hwalk hclean hroot path
  constructor
  · rintro rfl
    exact ⟨hincreasing, hmem⟩
  · -- Paths in order are known by which they are.
    rintro ⟨hpaths, hsources⟩
    apply hpaths.eq_of_mem_iff hincreasing
    intro path
    rw [hsources, hmem]

/-- The walk through a file system meets no error just if no directory that is shown has too long a
    path. -/
theorem walk_succeeds_iff_shows {fs : FileSystem} {root : String}
    {entries : List (String × Entry)} (hroot : fs.entry .follow root = .ok (.directory entries))
    (htop : (Entry.directory entries).isRegular = true) :
    Walk.Succeeds FileSystem.walk fs isKept root ↔
      ∀ names below path, names ≠ [] → (Entry.directory entries).Shows names (.directory below) →
        FilePath.Below root names path → textLength path ≤ FileSystem.pathLimit := by
  rw [FileSystem.walk_succeeds_iff isKept_of_depth_eq_zero hroot]
  simp only [comesTo_isKept_iff htop]
  constructor
  · intro h names below path hne hshows hbelow
    obtain rfl := (hshows.below_iff htop hne).mp hbelow
    exact h (.under root 0 names (.directory below)) ⟨names, _, hne, hshows, rfl⟩ rfl
  · rintro h v ⟨names, found, hne, hshows, rfl⟩ hdirectory
    cases found with
    | directory below => exact h names below _ hne hshows ((hshows.below_iff htop hne).mpr rfl)
    | _ => exact nomatch hdirectory

namespace Sample

/-- A directory of packages with sources, hidden and linked ones among them. -/
def packageEntries : List (String × Entry) :=
  [("b.ts", .file (some "")),
   ("node_modules", .directory [("x.js", .file (some ""))]),
   (".c.js", .file (some "")),
   ("a.js", .file (some "")),
   ("a", .directory [("node_modules", .file none), ("z.JS", .file none), ("l.js", .link "z.JS")])]

/-- The directory bears a name that would be passed over, below one that is hidden. -/
def packages : FileSystem where
  root := .directory [(".git", .directory [("node_modules", .directory packageEntries)])]
  workingDirectory := [".git"]

end Sample

/-- A directory comes before a file whose name goes on with a dot, the other way round than by the
    texts of the paths. -/
theorem collectSources_eq_ok_iff_packages :
    Walk.Faithful FileSystem.walk Sample.packages isKept "../.git/node_modules" ∧
    Sample.packages.entry .follow "../.git/node_modules" =
      .ok (.directory Sample.packageEntries) ∧
    (Entry.directory Sample.packageEntries).isRegular = true ∧
    collectSources FileSystem.walk Sample.packages "../.git/node_modules" =
      .ok ["../.git/node_modules/a/z.JS", "../.git/node_modules/a.js",
        "../.git/node_modules/b.ts"] ∧
    FilePath.Increasing ["../.git/node_modules/a/z.JS", "../.git/node_modules/a.js",
      "../.git/node_modules/b.ts"] := by
  have hregular : Sample.packages.root.isRegular = true := by decide +kernel
  have hwalk : Walk.Faithful FileSystem.walk Sample.packages isKept "../.git/node_modules" :=
    FileSystem.walk_faithful isKept_of_depth_eq_zero hregular _
  have hroot : Sample.packages.entry .follow "../.git/node_modules" =
      .ok (.directory Sample.packageEntries) := rfl
  have htop : (Entry.directory Sample.packageEntries).isRegular = true := by decide +kernel
  have hpaths : collectSources FileSystem.walk Sample.packages "../.git/node_modules" =
      .ok ["../.git/node_modules/a/z.JS", "../.git/node_modules/a.js",
        "../.git/node_modules/b.ts"] := by
    decide +kernel
  exact ⟨hwalk, hroot, htop, hpaths,
    ((collectSources_eq_ok_iff hwalk hroot htop _).mp hpaths).2.1⟩

end DefineFold
