/-
  DefineFold.Proofs.Files.Walk

  What may be relied on in a walk. Unless it meets an error, a faithful walk visits every entry once
  that it comes to from its root, and those are the entries in a directory that are kept, and what
  it comes to from each of them (`ComesTo`, `Walk.Faithful`).

  The walk through a file system is faithful where no directory holds a name twice
  (`FileSystem.walk_faithful`), and it meets an error just if it comes to a directory whose path is
  too long (`FileSystem.walk_succeeds_iff`). Both follow the way from a directory to its entries.
-/

import Mathlib.Data.List.Nodup
import DefineFold.Files.Walk
import DefineFold.Proofs.Files.Regular

namespace DefineFold

/-- The visits below an entry at a path, `depth` names away from the root of the walk: each entry in
    a directory that is kept, and what lies below that one. There is nothing below a link. -/
inductive ComesTo (keep : Visit → Bool) : String → Nat → Entry → Visit → Prop where
  | here {path : String} {depth : Nat} {entries : List (String × Entry)} {name : String}
    {e : Entry} :
    (name, e) ∈ entries → keep (.child path depth name e) = true →
      ComesTo keep path depth (.directory entries) (.child path depth name e)
  | down {path : String} {depth : Nat} {entries : List (String × Entry)} {name : String}
    {e : Entry} {v : Visit} :
    (name, e) ∈ entries → keep (.child path depth name e) = true →
      ComesTo keep (FilePath.join path name) (depth + 1) e v →
        ComesTo keep path depth (.directory entries) v

namespace Walk

/-- No error comes up on the way. -/
def Succeeds (walk : Walk) (fs : FileSystem) (keep : Visit → Bool) (root : String) : Prop :=
  ∀ fault, .error fault ∉ walk fs keep root

/-- A walk visits no entry twice, takes the root for what its name stands for, be it a link, and
    visits below the root what it comes to. -/
structure Faithful (walk : Walk) (fs : FileSystem) (keep : Visit → Bool) (root : String) :
    Prop where
  once : walk.Succeeds fs keep root → (walk fs keep root).Nodup
  atRoot {v : Visit} : walk.Succeeds fs keep root → .ok v ∈ walk fs keep root → v.depth = 0 →
    ∃ e, fs.entry .keep root = .ok e ∧ v.fileType = e.fileType
  below {v : Visit} : walk.Succeeds fs keep root → 0 < v.depth →
    (.ok v ∈ walk fs keep root ↔
      ∃ top, fs.entry .follow root = .ok top ∧ ComesTo keep root 0 top v)

end Walk

namespace Entry

theorem fileType_eq_file_iff {e : Entry} : e.fileType = .file ↔ ∃ text, e = .file text := by
  cases e <;> simp [fileType]

theorem fileType_eq_directory_iff {e : Entry} :
    e.fileType = .directory ↔ e.isDirectory = true := by
  cases e <;> simp [fileType, isDirectory]

end Entry

/-! ## Visits by their names -/

@[simp] theorem Visit.child_path (path : String) (depth : Nat) (name : String) (e : Entry) :
    (Visit.child path depth name e).path = FilePath.join path name := rfl

@[simp] theorem Visit.child_depth (path : String) (depth : Nat) (name : String) (e : Entry) :
    (Visit.child path depth name e).depth = depth + 1 := rfl

@[simp] theorem Visit.child_fileType (path : String) (depth : Nat) (name : String) (e : Entry) :
    (Visit.child path depth name e).fileType = e.fileType := rfl

/-- The visit of an entry under names below a path. -/
def Visit.under (path : String) (depth : Nat) (names : List String) (e : Entry) : Visit where
  path := names.foldl FilePath.join path
  depth := depth + names.length
  name := names.getLast?.getD ""
  fileType := e.fileType

theorem Visit.under_join {names : List String} (hne : names ≠ []) (path : String) (depth : Nat)
    (name : String) (e : Entry) :
    Visit.under (FilePath.join path name) (depth + 1) names e =
      .under path depth (name :: names) e := by
  cases names with
  | nil => exact absurd rfl hne
  | cons next names => simp [under, Nat.add_comm, Nat.add_left_comm]

namespace ComesTo

variable {keep : Visit → Bool} {path : String} {depth : Nat} {top : Entry} {v : Visit}

theorem isDirectory (h : ComesTo keep path depth top v) : top.isDirectory = true := by
  cases h <;> rfl

theorem depth_lt (h : ComesTo keep path depth top v) : depth < v.depth := by
  induction h with
  | here _ _ => exact Nat.lt_succ_self _
  | down _ _ _ ih => exact Nat.lt_of_succ_lt ih

theorem exists_names (h : ComesTo keep path depth top v) (hregular : top.isRegular = true) :
    ∃ names found, names ≠ [] ∧ top.at? names = some found ∧ v = .under path depth names found := by
  induction h with
  | @here path depth entries name e hmem _ =>
    have hchild := (Entry.child?_eq_some_iff hregular).mpr hmem
    refine ⟨[name], e, List.cons_ne_nil _ _, ?_, rfl⟩
    rw [Entry.at?, hchild]
    rfl
  | @down path depth entries name e v hmem _ _ ih =>
    have hchild := (Entry.child?_eq_some_iff hregular).mpr hmem
    obtain ⟨names, found, hne, hfound, rfl⟩ := ih (Entry.isRegular_of_child? hregular hchild)
    refine ⟨name :: names, found, List.cons_ne_nil _ _, ?_, Visit.under_join hne ..⟩
    rw [Entry.at?, hchild]
    exact hfound

/-- The path of a visit spells names of the tree. -/
theorem exists_below (h : ComesTo keep path depth top v) (hregular : top.isRegular = true) :
    ∃ names found, names ≠ [] ∧ top.at? names = some found ∧ v = .under path depth names found ∧
      FilePath.Below path names v.path := by
  obtain ⟨names, found, hne, hfound, rfl⟩ := h.exists_names hregular
  refine ⟨names, found, hne, hfound, rfl, FilePath.below_foldl_join hne ?_ path⟩
  exact fun name hname => (Entry.isRegularName_of_at? hregular hfound name hname).1

/-- Different entries lie at different paths. -/
theorem eq_of_path_eq {v' : Visit} (h : ComesTo keep path depth top v)
    (h' : ComesTo keep path depth top v') (hregular : top.isRegular = true)
    (heq : v.path = v'.path) : v = v' := by
  obtain ⟨names, found, -, hfound, hv, hbelow⟩ := h.exists_below hregular
  obtain ⟨names', found', -, hfound', hv', hbelow'⟩ := h'.exists_below hregular
  obtain rfl := hbelow.names_eq (heq ▸ hbelow')
  obtain rfl := Option.some.inj (hfound.symm.trans hfound')
  rw [hv, hv']

theorem cons_iff {name : String} {e : Entry} {rest : List (String × Entry)} :
    ComesTo keep path depth (.directory ((name, e) :: rest)) v ↔
      (keep (.child path depth name e) = true ∧
        (v = .child path depth name e ∨ ComesTo keep (FilePath.join path name) (depth + 1) e v)) ∨
      ComesTo keep path depth (.directory rest) v := by
  constructor
  · intro h
    cases h with
    | here hmem hkeep =>
      rcases List.mem_cons.mp hmem with heq | hmem
      · obtain ⟨rfl, rfl⟩ := Prod.mk.inj heq
        exact .inl ⟨hkeep, .inl rfl⟩
      · exact .inr (.here hmem hkeep)
    | down hmem hkeep hbelow =>
      rcases List.mem_cons.mp hmem with heq | hmem
      · obtain ⟨rfl, rfl⟩ := Prod.mk.inj heq
        exact .inl ⟨hkeep, .inr hbelow⟩
      · exact .inr (.down hmem hkeep hbelow)
  · rintro (⟨hkeep, rfl | hbelow⟩ | hrest)
    · exact .here List.mem_cons_self hkeep
    · exact .down List.mem_cons_self hkeep hbelow
    · cases hrest with
      | here hmem hkeep => exact .here (List.mem_cons_of_mem _ hmem) hkeep
      | down hmem hkeep hbelow => exact .down (List.mem_cons_of_mem _ hmem) hkeep hbelow

theorem not_nil : ¬ ComesTo keep path depth (.directory []) v := by
  intro h
  cases h with
  | here hmem _ => simp at hmem
  | down hmem _ _ => simp at hmem

/-- What lies below one name of a directory does not lie below the others. -/
theorem path_ne_of_cons {name : String} {e : Entry} {rest : List (String × Entry)} {v' : Visit}
    (hregular : (Entry.directory ((name, e) :: rest)).isRegular = true)
    (h : v = .child path depth name e ∨ ComesTo keep (FilePath.join path name) (depth + 1) e v)
    (h' : ComesTo keep path depth (.directory rest) v') : v.path ≠ v'.path := by
  obtain ⟨hname, hdistinct, he, hrest⟩ := Entry.areRegular_cons hregular
  obtain ⟨names, hbelow⟩ : ∃ names, FilePath.Below path (name :: names) v.path := by
    rcases h with rfl | h
    · exact ⟨[], FilePath.below_join hname.1 path⟩
    · obtain ⟨names, -, -, -, -, hbelow⟩ := h.exists_below he
      exact ⟨names, hbelow.join hname.1⟩
  obtain ⟨names', found, -, hfound, -, hbelow'⟩ := h'.exists_below hrest
  intro heq
  -- The first name of the one path would be that of the other, and it would come twice.
  obtain rfl := hbelow'.names_eq (heq ▸ hbelow)
  obtain ⟨_, below, hentries, hchild, -⟩ := Entry.exists_directory_of_at?_cons hfound
  exact hdistinct _ ((Entry.child?_eq_some_iff hrest).mp hchild) rfl

end ComesTo

/-! ## The walk through a file system -/

namespace FileSystem

variable {keep : Visit → Bool}

theorem walkBelow_eq_nil {e : Entry} (he : e.isDirectory = false) (path : String) (depth : Nat) :
    walkBelow keep path depth e = [] := by
  cases e with
  | directory => simp [Entry.isDirectory] at he
  | _ => rfl

/-- Everything that a step through the entries of a directory does. -/
theorem mem_walkAmong_cons_iff {path name : String} {depth : Nat} {e : Entry}
    {rest : List (String × Entry)} {item : Except WalkFault Visit} :
    item ∈ walkAmong keep path depth ((name, e) :: rest) ↔
      (keep (.child path depth name e) = true ∧ (item = .ok (.child path depth name e) ∨
        item ∈ walkBelow keep (FilePath.join path name) (depth + 1) e)) ∨
      item ∈ walkAmong keep path depth rest := by
  rw [walkAmong]
  split
  · rename_i hkeep
    simp [hkeep, or_assoc]
  · rename_i hkeep
    simp [hkeep]

section

variable {path : String} {depth : Nat} {e : Entry}

/-- There is no error on the way through some entries just if there is none at any of them. -/
theorem walkAmong_cons_clean_iff {name : String} {rest : List (String × Entry)} :
    (∀ fault, .error fault ∉ walkAmong keep path depth ((name, e) :: rest)) ↔
      (keep (.child path depth name e) = true →
        ∀ fault, .error fault ∉ walkBelow keep (FilePath.join path name) (depth + 1) e) ∧
      ∀ fault, .error fault ∉ walkAmong keep path depth rest := by
  simp only [mem_walkAmong_cons_iff, reduceCtorEq, false_or, not_or, not_and]
  exact ⟨fun h => ⟨fun hkeep fault => (h fault).1 hkeep, fun fault => (h fault).2⟩,
    fun h fault => ⟨fun hkeep => h.1 hkeep fault, h.2 fault⟩⟩

theorem mem_walkBelow_of_not_directory {v : Visit} (he : e.isDirectory = false) :
    .ok v ∈ walkBelow keep path depth e ↔ ComesTo keep path depth e v := by
  rw [walkBelow_eq_nil he]
  constructor
  · intro h
    simp at h
  · intro h
    simp [h.isDirectory] at he

end

mutual

theorem mem_walkBelow {v : Visit} :
    (e : Entry) → (path : String) → (depth : Nat) →
      (∀ fault, .error fault ∉ walkBelow keep path depth e) →
      (.ok v ∈ walkBelow keep path depth e ↔ ComesTo keep path depth e v)
  | .directory entries, path, depth, hclean => by
    rw [walkBelow] at hclean ⊢
    split at hclean
    · -- A directory that cannot be read would be an error.
      simp at hclean
    · rename_i hshort
      rw [if_neg hshort]
      exact mem_walkAmong entries path depth hclean
  | .file _, _, _, _ => mem_walkBelow_of_not_directory rfl
  | .device, _, _, _ => mem_walkBelow_of_not_directory rfl
  | .link _, _, _, _ => mem_walkBelow_of_not_directory rfl

theorem mem_walkAmong {v : Visit} :
    (entries : List (String × Entry)) → (path : String) → (depth : Nat) →
      (∀ fault, .error fault ∉ walkAmong keep path depth entries) →
      (.ok v ∈ walkAmong keep path depth entries ↔ ComesTo keep path depth (.directory entries) v)
  | [], path, depth, _ => by
    rw [walkAmong]
    simp [ComesTo.not_nil]
  | (name, e) :: rest, path, depth, hclean => by
    -- What the walk and the relation do at the first entry is the same, case by case.
    obtain ⟨hhere, hrest⟩ := walkAmong_cons_clean_iff.mp hclean
    rw [mem_walkAmong_cons_iff, ComesTo.cons_iff, mem_walkAmong rest path depth hrest,
      Except.ok.injEq]
    refine or_congr (and_congr_right fun hkeep => or_congr Iff.rfl ?_) Iff.rfl
    exact mem_walkBelow e _ _ (hhere hkeep)

end

/-- No directory has too long a path, neither the one at which a way begins nor any below. -/
def Readable (keep : Visit → Bool) (path : String) (depth : Nat) (e : Entry) : Prop :=
  (e.isDirectory = true → textLength path ≤ pathLimit) ∧
    ∀ v, ComesTo keep path depth e v → v.fileType = .directory → textLength v.path ≤ pathLimit

theorem walkBelow_clean_iff_of_not_directory {path : String} {depth : Nat} {e : Entry}
    (he : e.isDirectory = false) :
    (∀ fault, .error fault ∉ walkBelow keep path depth e) ↔ Readable keep path depth e := by
  rw [walkBelow_eq_nil he]
  refine iff_of_true (by simp) ⟨?_, ?_⟩
  · intro hdirectory
    simp [hdirectory] at he
  · intro v hv
    simp [hv.isDirectory] at he

mutual

theorem walkBelow_clean_iff :
    (e : Entry) → (path : String) → (depth : Nat) →
      ((∀ fault, .error fault ∉ walkBelow keep path depth e) ↔ Readable keep path depth e)
  | .directory entries, path, depth => by
    rw [walkBelow, Readable]
    split
    · rename_i hlong
      simp [Entry.isDirectory, Nat.not_le.mpr hlong]
    · rename_i hshort
      rw [walkAmong_clean_iff entries path depth]
      simp [Entry.isDirectory, Nat.le_of_not_lt hshort]
  | .file _, _, _ => walkBelow_clean_iff_of_not_directory rfl
  | .device, _, _ => walkBelow_clean_iff_of_not_directory rfl
  | .link _, _, _ => walkBelow_clean_iff_of_not_directory rfl

theorem walkAmong_clean_iff :
    (entries : List (String × Entry)) → (path : String) → (depth : Nat) →
      ((∀ fault, .error fault ∉ walkAmong keep path depth entries) ↔
        ∀ v, ComesTo keep path depth (.directory entries) v → v.fileType = .directory →
          textLength v.path ≤ pathLimit)
  | [], path, depth => by
    simp [walkAmong, ComesTo.not_nil]
  | (name, e) :: rest, path, depth => by
    rw [walkAmong_cons_clean_iff, walkBelow_clean_iff e, walkAmong_clean_iff rest]
    simp only [ComesTo.cons_iff, Readable, ← Entry.fileType_eq_directory_iff]
    constructor
    · rintro ⟨hhere, hrest⟩ v (⟨hkeep, rfl | hbelow⟩ | hv) hdirectory
      · exact (hhere hkeep).1 hdirectory
      · exact (hhere hkeep).2 v hbelow hdirectory
      · exact hrest v hv hdirectory
    · intro h
      refine ⟨fun hkeep => ⟨?_, ?_⟩, fun v hv => h v (.inr hv)⟩
      · exact h (.child path depth name e) (.inl ⟨hkeep, .inl rfl⟩)
      · exact fun v hv => h v (.inl ⟨hkeep, .inr hv⟩)

end

mutual

theorem nodup_walkBelow :
    (e : Entry) → e.isRegular = true → (path : String) → (depth : Nat) →
      (∀ fault, .error fault ∉ walkBelow keep path depth e) → (walkBelow keep path depth e).Nodup
  | .directory entries, hregular, path, depth, hclean => by
    rw [walkBelow] at hclean ⊢
    split at hclean
    · simp at hclean
    · rename_i hshort
      rw [if_neg hshort]
      exact nodup_walkAmong entries hregular path depth hclean
  | .file _, _, _, _, _ => List.nodup_nil
  | .device, _, _, _, _ => List.nodup_nil
  | .link _, _, _, _, _ => List.nodup_nil

theorem nodup_walkAmong :
    (entries : List (String × Entry)) → Entry.areRegular entries = true → (path : String) →
      (depth : Nat) → (∀ fault, .error fault ∉ walkAmong keep path depth entries) →
      (walkAmong keep path depth entries).Nodup
  | [], _, _, _, _ => List.nodup_nil
  | (name, e) :: rest, hregular, path, depth, hclean => by
    obtain ⟨-, -, he, hrest⟩ := Entry.areRegular_cons hregular
    obtain ⟨hhere, hothers⟩ := walkAmong_cons_clean_iff.mp hclean
    have hmore := nodup_walkAmong rest hrest path depth hothers
    rw [walkAmong]
    split
    · rename_i hkeep
      have hbelow := nodup_walkBelow e he (FilePath.join path name) (depth + 1) (hhere hkeep)
      -- A visit below a name lies deeper than the one of the name itself.
      have hfirst : (.ok (.child path depth name e) : Except WalkFault Visit) ∉
          walkBelow keep (FilePath.join path name) (depth + 1) e := by
        rw [mem_walkBelow e _ _ (hhere hkeep)]
        intro hv
        exact absurd hv.depth_lt (Nat.lt_irrefl _)
      refine List.nodup_append.mpr ⟨List.nodup_cons.mpr ⟨hfirst, hbelow⟩, hmore, ?_⟩
      rintro item hitem other hother rfl
      cases item with
      | error fault => exact hothers fault hother
      | ok v =>
        rw [mem_walkAmong rest path depth hothers] at hother
        refine ComesTo.path_ne_of_cons (v := v) hregular ?_ hother rfl
        rcases List.mem_cons.mp hitem with heq | hitem
        · exact .inl (Except.ok.inj heq)
        · exact .inr ((mem_walkBelow e _ _ (hhere hkeep)).mp hitem)
    · exact hmore

end

/-- Everything that a walk can be: an error at its root, or the root and the way below it. -/
theorem walk_cases (hkeep : ∀ v, v.depth = 0 → keep v = true) (fs : FileSystem) (root : String) :
    (∃ reason, fs.entry .follow root = .error reason ∧
      walk fs keep root = [.error ⟨root, reason⟩]) ∨
    ∃ e top, fs.entry .keep root = .ok e ∧ fs.entry .follow root = .ok top ∧
      walk fs keep root = .ok (visitRoot root e) :: walkBelow keep root 0 top := by
  cases htop : fs.entry .follow root with
  | error reason =>
    refine .inl ⟨reason, rfl, ?_⟩
    rcases fs.entry_keep root with hsame | ⟨target, hlink⟩
    · simp only [walk, hsame, htop]
    · simp only [walk, hlink, htop]
  | ok top =>
    obtain ⟨e, he⟩ : ∃ e, fs.entry .keep root = .ok e := by
      rcases fs.entry_keep root with hsame | ⟨target, hlink⟩
      · exact ⟨top, hsame.trans htop⟩
      · exact ⟨_, hlink⟩
    refine .inr ⟨e, top, he, rfl, ?_⟩
    simp only [walk, he, htop]
    rw [if_pos (hkeep (visitRoot root e) rfl)]
    rfl

/-- The walk through a file system is faithful. -/
theorem walk_faithful (hkeep : ∀ v, v.depth = 0 → keep v = true) {fs : FileSystem}
    (hregular : fs.root.isRegular = true) (root : String) :
    Walk.Faithful walk fs keep root := by
  rcases walk_cases hkeep fs root with ⟨reason, -, hwalk⟩ | ⟨e, top, he, htop, hwalk⟩
  · have hfails : ¬ Walk.Succeeds walk fs keep root :=
      fun h => h ⟨root, reason⟩ (by simp [hwalk])
    exact ⟨fun h => absurd h hfails, fun h => absurd h hfails, fun h => absurd h hfails⟩
  · have hclean : Walk.Succeeds walk fs keep root →
        ∀ fault, .error fault ∉ walkBelow keep root 0 top := by
      intro h fault hfault
      exact h fault (by rw [hwalk]; exact List.mem_cons_of_mem _ hfault)
    have htop' := isRegular_of_entry hregular htop
    constructor
    · intro h
      rw [hwalk]
      refine List.nodup_cons.mpr ⟨?_, nodup_walkBelow top htop' root 0 (hclean h)⟩
      rw [mem_walkBelow top root 0 (hclean h)]
      intro hv
      exact absurd hv.depth_lt (Nat.lt_irrefl 0)
    · intro v h hv hdepth
      rw [hwalk] at hv
      rcases List.mem_cons.mp hv with heq | hv
      · exact ⟨e, he, congrArg Visit.fileType (Except.ok.inj heq)⟩
      · have hlt := ((mem_walkBelow top root 0 (hclean h)).mp hv).depth_lt
        exact absurd hlt (hdepth ▸ Nat.lt_irrefl 0)
    · intro v h hdepth
      have hne : v ≠ visitRoot root e := by
        rintro rfl
        exact absurd hdepth (Nat.lt_irrefl 0)
      rw [hwalk, List.mem_cons, mem_walkBelow top root 0 (hclean h)]
      simp [hne, htop]

/-- A walk from a directory goes through just if it comes to no directory whose path is too
    long. -/
theorem walk_succeeds_iff (hkeep : ∀ v, v.depth = 0 → keep v = true) {fs : FileSystem}
    {root : String} {entries : List (String × Entry)}
    (hroot : fs.entry .follow root = .ok (.directory entries)) :
    Walk.Succeeds walk fs keep root ↔
      ∀ v, ComesTo keep root 0 (.directory entries) v → v.fileType = .directory →
        textLength v.path ≤ pathLimit := by
  obtain ⟨place, hplace, -⟩ := locate_of_entry hroot
  -- The directory itself can be read, or no path would lead to it.
  obtain ⟨-, -, hlimit⟩ := (locate_eq_ok hplace).1
  rcases walk_cases hkeep fs root with ⟨reason, herror, -⟩ | ⟨e, top, -, htop, hwalk⟩
  · simp [hroot] at herror
  · obtain rfl := Except.ok.inj (htop.symm.trans hroot)
    rw [Walk.Succeeds, hwalk]
    simp only [List.mem_cons, reduceCtorEq, false_or]
    rw [walkBelow_clean_iff (.directory entries) root 0, Readable]
    simp [hlimit]

end FileSystem

end DefineFold
