/-
  DefineFold.Proofs.Files.Sources

  The files that are found below a directory, and where they go. A scan succeeds if its walk meets
  no error, and then it has the sources among the visits, sorted (`collectSources_eq_sort_iff`). On
  a faithful walk, a file that is found lies under names below the directory
  (`exists_names_of_collectSources`), and it is found there and read as the same as long as nothing
  is written to it (`readSource_of_grows`). It goes to the same names below another directory
  (`exists_of_leadsTo_target`); if that one is a tree of its own, no file that is written is one of
  those that are read, and no two files go to one place.
-/

import DefineFold.Proofs.Files.Order
import DefineFold.Proofs.Files.Walk
import DefineFold.Proofs.Files.Write

namespace DefineFold

/-! ## What a scan makes of a walk -/

/-- A scan begins wherever it is told to. -/
theorem isKept_of_depth_eq_zero (v : Visit) (h : v.depth = 0) : isKept v = true := by
  rw [isKept, if_pos h]

theorem isSource_iff {v : Visit} :
    isSource v = true ↔ v.fileType = .file ∧ (Language.ofPath? v.path).isSome = true := by
  rw [isSource, Bool.and_eq_true, beq_iff_eq]

/-- The visits among the items of a walk. -/
def visitsOf (items : List (Except WalkFault Visit)) : List Visit :=
  items.filterMap Except.toOption

theorem toOption_eq_some_iff {item : Except WalkFault Visit} {v : Visit} :
    item.toOption = some v ↔ item = .ok v := by
  cases item <;> simp [Except.toOption]

theorem mem_visitsOf_iff {items : List (Except WalkFault Visit)} {v : Visit} :
    v ∈ visitsOf items ↔ .ok v ∈ items := by
  simp [visitsOf, List.mem_filterMap, toOption_eq_some_iff]

theorem nodup_visitsOf {items : List (Except WalkFault Visit)} (h : items.Nodup) :
    (visitsOf items).Nodup := by
  refine h.filterMap ?_
  intro item item' v hv hv'
  rw [toOption_eq_some_iff.mp hv, toOption_eq_some_iff.mp hv']

/-- A scan goes through just if no item is an error, and finds the sources in their order. -/
theorem sourcesOf_eq_ok_iff {root : String} {items : List (Except WalkFault Visit)}
    {found : List String} :
    sourcesOf root items = .ok found ↔
      (∀ fault, .error fault ∉ items) ∧
        found = ((visitsOf items).filter isSource).map Visit.path := by
  induction items generalizing found with
  | nil => simp [sourcesOf, visitsOf, eq_comm]
  | cons item rest ih =>
    cases item with
    | error fault =>
      -- The scan ends here, whatever comes behind.
      rw [sourcesOf]
      refine iff_of_false nofun ?_
      rintro ⟨hclean, -⟩
      exact hclean fault List.mem_cons_self
    | ok v =>
      have hclean : (∀ fault, .error fault ∉ .ok v :: rest) ↔ ∀ fault, .error fault ∉ rest := by
        simp
      have hvisits : visitsOf (.ok v :: rest) = v :: visitsOf rest := rfl
      rw [hclean, hvisits, List.filter_cons, sourcesOf]
      cases hrest : sourcesOf root rest with
      | error fault =>
        refine iff_of_false nofun ?_
        rintro ⟨hrest', -⟩
        exact nomatch hrest.symm.trans (ih.mpr ⟨hrest', rfl⟩)
      | ok more =>
        obtain ⟨hrest', rfl⟩ := ih.mp hrest
        rw [Except.ok.injEq, eq_comm, and_iff_right hrest', apply_ite (List.map Visit.path)]
        rfl

/-- The paths of the sources that a walk visits, in the order of its visits. -/
def foundBy (walk : Walk) (fs : FileSystem) (root : String) : List String :=
  ((visitsOf (walk fs isKept root)).filter isSource).map Visit.path

theorem collectSources_eq_sort_iff {walk : Walk} {fs : FileSystem} {root : String}
    {paths : List String} :
    collectSources walk fs root = .ok paths ↔
      walk.Succeeds fs isKept root ∧ paths = FilePath.sort (foundBy walk fs root) := by
  rw [collectSources]
  cases hfound : sourcesOf root (walk fs isKept root) with
  | error fault =>
    refine iff_of_false nofun ?_
    rintro ⟨hclean, -⟩
    exact nomatch hfound.symm.trans (sourcesOf_eq_ok_iff.mpr ⟨hclean, rfl⟩)
  | ok found =>
    obtain ⟨hclean, rfl⟩ := sourcesOf_eq_ok_iff.mp hfound
    rw [Except.ok.injEq, eq_comm]
    exact ⟨fun heq => ⟨hclean, heq⟩, fun heq => heq.2⟩

section

variable {walk : Walk} {fs : FileSystem} {root : String} {entries : List (String × Entry)}
  (hwalk : walk.Faithful fs isKept root) (hclean : walk.Succeeds fs isKept root)
  (hroot : fs.entry .follow root = .ok (.directory entries))

include hwalk hclean hroot

/-- A source that a faithful walk from a directory visits is an entry that it comes to. -/
theorem mem_visits_iff {v : Visit} (hsource : isSource v = true) :
    v ∈ visitsOf (walk fs isKept root) ↔ ComesTo isKept root 0 (.directory entries) v := by
  rw [mem_visitsOf_iff]
  constructor
  · intro hv
    rcases Nat.eq_zero_or_pos v.depth with hdepth | hdepth
    · -- A directory is no source, and neither is a link to one.
      obtain ⟨e, he, hfile⟩ := hwalk.atRoot hclean hv hdepth
      rw [(isSource_iff.mp hsource).1] at hfile
      obtain ⟨text, rfl⟩ := Entry.fileType_eq_file_iff.mp hfile.symm
      rcases fs.entry_keep root with hsame | ⟨target, hlink⟩
      · simp [he, hroot] at hsame
      · simp [he] at hlink
    · obtain ⟨top, htop, hcomes⟩ := (hwalk.below hclean hdepth).mp hv
      obtain rfl := Except.ok.inj (htop.symm.trans hroot)
      exact hcomes
  · intro hv
    exact (hwalk.below hclean hv.depth_lt).mpr ⟨_, hroot, hv⟩

theorem mem_foundBy_iff {path : String} :
    path ∈ foundBy walk fs root ↔
      ∃ v, ComesTo isKept root 0 (.directory entries) v ∧ isSource v = true ∧ v.path = path := by
  simp only [foundBy, List.mem_map, List.mem_filter, and_assoc]
  constructor
  · rintro ⟨v, hv, hsource, rfl⟩
    exact ⟨v, (mem_visits_iff hwalk hclean hroot hsource).mp hv, hsource, rfl⟩
  · rintro ⟨v, hv, hsource, rfl⟩
    exact ⟨v, (mem_visits_iff hwalk hclean hroot hsource).mpr hv, hsource, rfl⟩

/-- No source is found twice. -/
theorem nodup_foundBy (htop : (Entry.directory entries).isRegular = true) :
    (foundBy walk fs root).Nodup := by
  refine List.Nodup.map_on ?_ ((nodup_visitsOf (hwalk.once hclean)).filter _)
  intro v hv v' hv' heq
  obtain ⟨hv, hsource⟩ := List.mem_filter.mp hv
  obtain ⟨hv', hsource'⟩ := List.mem_filter.mp hv'
  rw [mem_visits_iff hwalk hclean hroot hsource] at hv
  rw [mem_visits_iff hwalk hclean hroot hsource'] at hv'
  exact hv.eq_of_path_eq hv' htop heq

end

/-! ## What is found -/

/-- A file lies under names below an entry, and a path spells these names below another path. -/
structure IsFileBelow (root : String) (e : Entry) (names : List String) (path : String) : Prop where
  ne_nil : names ≠ []
  below : FilePath.Below root names path
  regular : ∀ name ∈ names, IsRegularName name
  isFile : ∃ text, e.at? names = some (.file text)

theorem IsFileBelow.target {root path : String} {e : Entry} {names : List String}
    (h : IsFileBelow root e names path) (hroot : root ≠ "") (outDir : String) :
    FilePath.Below outDir names (FilePath.target root path outDir) :=
  h.below.target hroot h.ne_nil (fun name hname => (h.regular name hname).1) outDir

/-- Every source of a scan is a file under names below the directory, and comes once. -/
theorem exists_names_of_collectSources {walk : Walk} {fs : FileSystem}
    (hregular : fs.root.isRegular = true) {root : String} {paths : List String}
    (hwalk : walk.Faithful fs isKept root) (hdirectory : fs.isDirectory root = true)
    (h : collectSources walk fs root = .ok paths) :
    paths.Nodup ∧ ∃ place entries, fs.locate .follow root = .ok (.found place) ∧
      fs.root.at? place = some (.directory entries) ∧
      ∀ path ∈ paths, ∃ names, IsFileBelow root (.directory entries) names path := by
  obtain ⟨place, entries, hplace, hentries⟩ := FileSystem.exists_of_isDirectory hdirectory
  have hroot := FileSystem.entry_of_locate hplace hentries
  have htop := FileSystem.isRegular_of_entry hregular hroot
  obtain ⟨hclean, rfl⟩ := collectSources_eq_sort_iff.mp h
  have hperm := FilePath.sort_perm (foundBy walk fs root)
  refine ⟨hperm.nodup_iff.mpr (nodup_foundBy hwalk hclean hroot htop), place, entries, hplace,
    hentries, ?_⟩
  intro path hpath
  obtain ⟨v, hv, hsource, rfl⟩ := (mem_foundBy_iff hwalk hclean hroot).mp (hperm.mem_iff.mp hpath)
  obtain ⟨names, found, hne, hfound, heq, hbelow⟩ := hv.exists_below htop
  refine ⟨names, hne, hbelow, Entry.isRegularName_of_at? htop hfound, ?_⟩
  have hfile : found.fileType = .file := by
    rw [← (isSource_iff.mp hsource).1, heq]
    rfl
  obtain ⟨text, rfl⟩ := Entry.fileType_eq_file_iff.mp hfile
  exact ⟨text, hfound⟩

/-! ## Reading what was found -/

namespace FileSystem

theorem Walks.of_empty {root : Entry} {s goal : Stage} {piece : String} (hpiece : piece = "")
    (h : Walks root s [piece] goal) : goal = s := by
  cases h with
  | step hstep hrest =>
    cases hstep with
    | stay _ _ =>
      cases hrest
      rfl
    | up _ => simp at hpiece
    | link hname _ _ => exact absurd hpiece hname.1
    | down hname _ _ => exact absurd hpiece hname.1

theorem Walks.stem {root : Entry} {s goal : Stage} {path : String}
    (h : Walks root s (FilePath.pieces path) goal) : Walks root s (FilePath.stem path) goal := by
  rcases FilePath.pieces_eq_stem path with hpieces | hpieces
  · rwa [hpieces] at h
  · rw [hpieces] at h
    obtain ⟨between, hstem, hempty⟩ := way_append_iff.mp h
    obtain rfl := Walks.of_empty rfl hempty
    exact hstem

/-- A file below a directory is where its names lead from there. -/
theorem locate_of_isFileBelow {written : List String → Prop} {old new : FileSystem}
    (hgrows : Grows written old new) {root path : String} {place names : List String}
    {entries : List (String × Entry)} (hroot : old.locate .follow root = .ok (.found place))
    (hentries : old.root.at? place = some (.directory entries))
    (hfile : IsFileBelow root (.directory entries) names path) (hpath : Admits path) :
    new.locate .follow path = .ok (.found (place ++ names)) := by
  obtain ⟨start, ⟨links, goal⟩, hstart, hwalks, hgoal⟩ :=
    exists_walks_of_locate hgrows hroot nofun nofun
  obtain rfl : goal.names = place := hgoal
  have hvalid := hwalks.isValid (Trail.isValid_of_extend? hstart trivial).1
  obtain ⟨text, htext⟩ := hfile.isFile
  -- What was a file is one still, and no link.
  have hold : old.root.at? (goal.names ++ names) = some (.file text) := by
    rw [Entry.at?_append, hentries]
    exact htext
  obtain ⟨e, he, halike⟩ := hgrows.root.kept hold
  have hnotlink : ∀ target, e ≠ .link target := by
    rintro target rfl
    exact halike
  obtain ⟨goal', hnames, hgoal'⟩ := exists_walks_names hvalid links
    (fun name hname => (hfile.regular name hname).isName) hnotlink he
  have hall : Walks new.root _ _ _ := way_append_iff.mpr ⟨_, hwalks.stem, hnames⟩
  rw [← hfile.below.pieces] at hall
  have hstart' : Trail.extend? new.root [] (new.startOf path) = some start := by
    rw [startOf, hfile.below.isAbsolute]
    exact hstart
  rw [locate_of_walks hpath hstart' hall, hgoal']

theorem exists_error_of_not_admits {path : String} (h : ¬ Admits path) :
    ∃ e, ∀ (fs : FileSystem) (last : LastName), fs.locate last path = .error e := by
  by_cases hnul : path.toList.contains '\x00' = true
  · exact ⟨.nulInName, fun fs last => by rw [locate, if_pos hnul]⟩
  · by_cases hempty : path = ""
    · exact ⟨.notFound, fun fs last => by rw [locate, if_neg hnul, if_pos hempty]⟩
    · have hlimit : pathLimit < textLength path :=
        Nat.lt_of_not_le fun hlimit => h ⟨by simpa using hnul, hempty, hlimit⟩
      exact ⟨.nameTooLong, fun fs last => by
        rw [locate, if_neg hnul, if_neg hempty, if_pos hlimit]⟩

/-- A file below a directory is read as before, unless it is written. -/
theorem readSource_of_grows {written : List String → Prop} {old new : FileSystem}
    (hgrows : Grows written old new) {root path : String} {place names : List String}
    {entries : List (String × Entry)} (hroot : old.locate .follow root = .ok (.found place))
    (hentries : old.root.at? place = some (.directory entries))
    (hfile : IsFileBelow root (.directory entries) names path)
    (hplace : ¬ written (place ++ names)) : readSource new path = readSource old path := by
  have hentry : new.entry .follow path = old.entry .follow path := by
    by_cases hpath : Admits path
    · obtain ⟨text, htext⟩ := hfile.isFile
      have hold : old.root.at? (place ++ names) = some (.file text) := by
        rw [Entry.at?_append, hentries]
        exact htext
      rw [entry_of_locate (locate_of_isFileBelow hgrows hroot hentries hfile hpath)
          ((hgrows.root.texts text hplace).mpr hold),
        entry_of_locate (locate_of_isFileBelow (.refl written old) hroot hentries hfile hpath) hold]
    · obtain ⟨e, herror⟩ := exists_error_of_not_admits hpath
      rw [entry, entry, herror, herror]
  rw [readSource, readSource, isFile, isFile, FileSystem.read, FileSystem.read, hentry]

/-! ## Where files go -/

/-- A path below a directory leads to where its names lead from the directory. -/
theorem exists_of_leadsTo_below {fs : FileSystem} {above path : String} {names goal : List String}
    (hbelow : FilePath.Below above names path) (h : fs.LeadsTo path goal) :
    ∃ place, fs.LeadsTo above place ∧ Leads fs.root place names goal := by
  rw [LeadsTo, hbelow.pieces, startOf, hbelow.isAbsolute] at h
  obtain ⟨place, hstem, hnames⟩ := way_append_iff.mp h
  refine ⟨place, ?_, hnames⟩
  rw [LeadsTo]
  rcases FilePath.pieces_eq_stem above with hpieces | hpieces
  · rw [hpieces]
    exact hstem
  · rw [hpieces]
    exact way_append_iff.mpr ⟨place, hstem, .step (.stay (.inl rfl)) (.done place)⟩

/-- A file goes to where its names lead from the other directory. -/
theorem exists_of_leadsTo_target {fs : FileSystem} {root path outDir : String} (hroot : root ≠ "")
    {e : Entry} {names goal : List String} (hfile : IsFileBelow root e names path)
    (h : fs.LeadsTo (FilePath.target root path outDir) goal) :
    ∃ place, fs.LeadsTo outDir place ∧ Leads fs.root place names goal :=
  exists_of_leadsTo_below (hfile.target hroot outDir) h

/-- A directory to which files go is a tree of its own: it does not overlap the one that they come
    from, and there is nothing in it but files and directories. -/
structure Apart (fs : FileSystem) (root outDir : String) : Prop where
  disjoint : ∀ {source place}, fs.LeadsTo root source → fs.LeadsTo outDir place →
    ¬ source <+: place ∧ ¬ place <+: source
  plain : ∀ {place e}, fs.LeadsTo outDir place → fs.root.at? place = some e →
    e.isPlainTree = true

/-- Two directories that are there can be told to be apart. -/
theorem apart_of_locate {fs : FileSystem} {root outDir : String} {source place : List String}
    {e : Entry} (hroot : fs.locate .follow root = .ok (.found source))
    (hout : fs.locate .follow outDir = .ok (.found place)) (hbelow : ¬ source <+: place)
    (habove : ¬ place <+: source) (he : fs.root.at? place = some e)
    (hplain : e.isPlainTree = true) : fs.Apart root outDir := by
  have hgrows : Grows (fun _ => False) fs fs := .refl _ _
  have hsource : fs.LeadsTo root source := leadsTo_of_locate hgrows hroot nofun nofun
  have hplace : fs.LeadsTo outDir place := leadsTo_of_locate hgrows hout nofun nofun
  constructor
  · intro source' place' hsource' hplace'
    rw [Leads.unique hsource' hsource, Leads.unique hplace' hplace]
    exact ⟨hbelow, habove⟩
  · intro place' e' hplace' he'
    rw [Leads.unique hplace' hplace, he] at he'
    exact Option.some.inj he' ▸ hplain

theorem Apart.isPlain {fs : FileSystem} {root outDir : String} (h : fs.Apart root outDir)
    {place names : List String} (hplace : fs.LeadsTo outDir place) {e : Entry}
    (he : fs.root.at? (place ++ names) = some e) : e.IsPlain := by
  rw [Entry.at?_append] at he
  obtain ⟨top, htop, hbelow⟩ := Option.bind_eq_some_iff.mp he
  exact Entry.isPlain_of_isPlainTree
    (Entry.of_at? Entry.isPlainTree_of_child? (h.plain hplace htop) hbelow)

/-- A scan of a directory whose sources go to a tree of their own. -/
structure Scan (fs : FileSystem) (walk : Walk) (root outDir : String) (paths : List String) :
    Prop where
  regular : fs.root.isRegular = true
  isDirectory : fs.isDirectory root = true
  faithful : walk.Faithful fs isKept root
  collected : collectSources walk fs root = .ok paths
  apart : fs.Apart root outDir

namespace Scan

variable {fs : FileSystem} {walk : Walk} {root outDir : String} {paths : List String}

/-- The file at each path lies at a place in the tree of the sources, and goes to the place under
    the same names in the other tree. -/
theorem exists_names (h : fs.Scan walk root outDir paths) :
    root ≠ "" ∧ ∃ source entries, fs.locate .follow root = .ok (.found source) ∧
      fs.root.at? source = some (.directory entries) ∧ ∀ path ∈ paths, ∃ names,
        IsFileBelow root (.directory entries) names path ∧
        ∀ goal, fs.LeadsTo (FilePath.target root path outDir) goal →
          ∃ place, fs.LeadsTo outDir place ∧ goal = place ++ names := by
  obtain ⟨-, source, entries, hroot, hentries, hnames⟩ :=
    exists_names_of_collectSources h.regular h.faithful h.isDirectory h.collected
  have hne : root ≠ "" := (locate_eq_ok hroot).1.2.1
  refine ⟨hne, source, entries, hroot, hentries, ?_⟩
  intro path hpath
  obtain ⟨names, hfile⟩ := hnames path hpath
  refine ⟨names, hfile, ?_⟩
  intro goal hgoal
  obtain ⟨place, hplace, hleads⟩ := exists_of_leadsTo_target hne hfile hgoal
  refine ⟨place, hplace, hleads.eq_append ?_ ?_⟩
  · exact fun name hname => (hfile.regular name hname).isName
  · intro below target hlink
    exact h.apart.isPlain hplace hlink

theorem nodup (h : fs.Scan walk root outDir paths) : paths.Nodup :=
  (exists_names_of_collectSources h.regular h.faithful h.isDirectory h.collected).1

/-- No source is read from a place to which another one goes. -/
theorem readSource_eq (h : fs.Scan walk root outDir paths) {written : List String → Prop}
    {fs' : FileSystem} (hgrows : Grows written fs fs')
    (hwritten : ∀ place, written place → ∃ path ∈ paths,
      fs.LeadsTo (FilePath.target root path outDir) place) {path : String} (hpath : path ∈ paths) :
    readSource fs' path = readSource fs path := by
  obtain ⟨-, source, entries, hroot, hentries, hnames⟩ := h.exists_names
  obtain ⟨names, hfile, -⟩ := hnames path hpath
  apply readSource_of_grows hgrows hroot hentries hfile
  intro hplace
  obtain ⟨other, hother, hleads⟩ := hwritten _ hplace
  obtain ⟨names', -, hgoal⟩ := hnames other hother
  obtain ⟨place, hplace', heq⟩ := hgoal _ hleads
  -- One of the two trees would lie in the other.
  have hsource : fs.LeadsTo root source := leadsTo_of_locate (.refl written fs) hroot nofun nofun
  obtain ⟨hbelow, habove⟩ := h.apart.disjoint hsource hplace'
  rcases List.prefix_or_prefix_of_prefix (List.prefix_append source names)
    (heq ▸ List.prefix_append place names') with hprefix | hprefix
  · exact hbelow hprefix
  · exact habove hprefix

/-- Different files go to different paths. -/
theorem eq_of_target_eq (h : fs.Scan walk root outDir paths) {path path' : String}
    (hpath : path ∈ paths) (hpath' : path' ∈ paths)
    (heq : FilePath.target root path outDir = FilePath.target root path' outDir) :
    path = path' := by
  obtain ⟨hroot, -, entries, -, -, hnames⟩ := h.exists_names
  obtain ⟨names, hfile, -⟩ := hnames path hpath
  obtain ⟨names', hfile', -⟩ := hnames path' hpath'
  obtain rfl := (hfile.target hroot outDir).names_eq (heq ▸ hfile'.target hroot outDir)
  exact hfile.below.unique hfile'.below

/-- Different files go to different places. -/
theorem eq_of_leadsTo (h : fs.Scan walk root outDir paths) {path path' : String}
    (hpath : path ∈ paths) (hpath' : path' ∈ paths) {goal : List String}
    (hgoal : fs.LeadsTo (FilePath.target root path outDir) goal)
    (hgoal' : fs.LeadsTo (FilePath.target root path' outDir) goal) : path = path' := by
  obtain ⟨-, -, entries, -, -, hnames⟩ := h.exists_names
  obtain ⟨names, hfile, hplaces⟩ := hnames path hpath
  obtain ⟨names', hfile', hplaces'⟩ := hnames path' hpath'
  obtain ⟨place, hplace, rfl⟩ := hplaces _ hgoal
  obtain ⟨place', hplace', heq⟩ := hplaces' _ hgoal'
  obtain rfl := Leads.unique hplace hplace'
  obtain rfl := List.append_cancel_left heq
  exact hfile.below.unique hfile'.below

/-- No file goes to a device. -/
theorem not_device (h : fs.Scan walk root outDir paths) {path : String} (hpath : path ∈ paths)
    {goal : List String} (hgoal : fs.LeadsTo (FilePath.target root path outDir) goal) :
    fs.root.at? goal ≠ some .device := by
  intro hdevice
  obtain ⟨-, -, entries, -, -, hnames⟩ := h.exists_names
  obtain ⟨names, -, hplaces⟩ := hnames path hpath
  obtain ⟨place, hplace, rfl⟩ := hplaces _ hgoal
  exact h.apart.isPlain hplace hdevice

end Scan

end FileSystem

end DefineFold
